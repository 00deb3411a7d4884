import Mathlib
import Rv32Asm.Json.Number
import Rv32Asm.Json.Text
import Rv32Asm.Proofs.Digits

/-!
# JSON strings and numbers read back

A written string is read back whatever its characters (`stringBody_quoted`), and so is a written
integer that fits in 64 bits, signed or unsigned (`scanNumber_signedDecimal`, `value_ofInt`). Behind
a number the text has to go on with something that cannot belong to it (`Ends`).
-/

namespace Rv32Asm.Json

/-! ### Strings -/

theorem codeUnit_fixedDigits {n : Nat} (h : n < 16 ^ 4) (rest : List Char) :
    codeUnit (Text.fixedDigits 16 4 n ++ rest) = .ok (n, rest) := by
  have hdigit : ∀ k : Nat, Text.hexDigitValue? (k % 16).digitChar = some (k % 16) :=
    fun k => Text.hexDigitValue?_digitChar (Nat.mod_lt k (by decide))
  have hvalue : ((n / 16 / 16 / 16 % 16 * 16 + n / 16 / 16 % 16) * 16 + n / 16 % 16) * 16 + n % 16 =
      n := by omega
  simp [Text.fixedDigits, codeUnit, hdigit, hvalue]

theorem unicodeEscape_fixedDigits {c : Char} (h : isControl c = true) (rest : List Char) :
    unicodeEscape (Text.fixedDigits 16 4 c.toNat ++ rest) = .ok (c, rest) := by
  replace h : c.toNat < 0x20 := of_decide_eq_true h
  unfold unicodeEscape
  rw [codeUnit_fixedDigits (by omega)]
  simp only [bind, Except.bind]
  rw [if_neg (by omega), if_neg (by omega), Char.ofNat_toNat]
  rfl

/-- A written character is read back, whatever follows it. -/
theorem stringStep_escaped (c : Char) (rest : List Char) :
    stringStep (escaped c ++ rest) = .ok (some c, rest) := by
  unfold escaped
  split
  case h_8 =>
    split
    · next hcontrol =>
      simp [stringStep, escape, unicodeEscape_fixedDigits hcontrol, Functor.map, Except.map]
    · next hcontrol => simp [stringStep, hcontrol]
  all_goals rfl

theorem escaped_ne_nil (c : Char) : escaped c ≠ [] := by
  intro h
  have hstep := stringStep_escaped c []
  rw [h] at hstep
  cases hstep

theorem length_le_length_flatMap_escaped (cs : List Char) :
    cs.length ≤ (cs.flatMap escaped).length := by
  induction cs with
  | nil => simp
  | cons c cs ih =>
    have hpos := List.length_pos_iff.mpr (escaped_ne_nil c)
    simp only [List.flatMap_cons, List.length_append, List.length_cons]
    omega

/-- The loop over a string reads the written characters one by one, if the fuel lasts for the
closing quote too. -/
theorem stringLoop_flatMap_escaped {fuel cs : List Char} (h : cs.length < fuel.length)
    (before rest : List Char) :
    stringLoop fuel before (cs.flatMap escaped ++ '"' :: rest) =
      .ok (String.ofList (before.reverse ++ cs), rest) := by
  induction cs generalizing fuel before with
  | nil =>
    cases fuel with
    | nil => cases h
    | cons f fuel => simp [stringLoop, stringStep]
  | cons c cs ih =>
    cases fuel with
    | nil => cases h
    | cons f fuel =>
      simp only [stringLoop, List.flatMap_cons, List.append_assoc, stringStep_escaped]
      rw [ih (Nat.lt_of_succ_lt_succ h)]
      simp

theorem toList_quoted (s : String) :
    (quoted s).toList = '"' :: (s.toList.flatMap escaped ++ ['"']) := by
  simp [quoted]

/-- A written string is read back behind its opening quote. -/
theorem stringBody_quoted (s : String) (rest : List Char) :
    stringBody (s.toList.flatMap escaped ++ '"' :: rest) = .ok (s, rest) := by
  have hfuel : s.toList.length < (s.toList.flatMap escaped ++ '"' :: rest).length := by
    have hle := length_le_length_flatMap_escaped s.toList
    simp only [List.length_append, List.length_cons]
    omega
  unfold stringBody
  rw [stringLoop_flatMap_escaped hfuel]
  simp

/-! ### Numbers -/

/-- The text starts with nothing that could belong to a number before it. -/
def Ends : List Char → Prop
  | [] => True
  | c :: _ => c.isDigit = false ∧ c ≠ '.' ∧ c ≠ 'e' ∧ c ≠ 'E'

theorem span_isDigit_append {digits rest : List Char} (h : ∀ c ∈ digits, c.isDigit = true)
    (hrest : Ends rest) : (digits ++ rest).span Char.isDigit = (digits, rest) := by
  have hnone : rest.takeWhile Char.isDigit = [] ∧ rest.dropWhile Char.isDigit = rest := by
    cases rest with
    | nil => exact ⟨rfl, rfl⟩
    | cons c rest => simp [hrest.1]
  rw [List.span_eq_takeWhile_dropWhile, List.takeWhile_append_of_pos h,
    List.dropWhile_append_of_pos h, hnone.1, hnone.2, List.append_nil]

theorem someDigits_append {digits rest : List Char} (h : ∀ c ∈ digits, c.isDigit = true)
    (hne : digits ≠ []) (hrest : Ends rest) :
    someDigits (digits ++ rest) = .ok (digits, rest) := by
  unfold someDigits
  rw [span_isDigit_append h hrest]
  cases digits with
  | nil => exact absurd rfl hne
  | cons c digits => rfl

theorem isDigit_of_mem_toDigits {n : Nat} {c : Char} (h : c ∈ Nat.toDigits 10 n) :
    c.isDigit = true := Nat.isDigit_of_mem_toDigits (by decide) (by decide) h

/-- Only zero is written with a zero in front. -/
theorem head_toDigits {n : Nat} (h : 0 < n) : ∃ c cs, Nat.toDigits 10 n = c :: cs ∧ c ≠ '0' := by
  induction n using Nat.strong_induction_on with
  | _ n ih =>
    by_cases hn : n < 10
    · refine ⟨n.digitChar, [], Nat.toDigits_of_lt_base hn, ?_⟩
      have hall : ∀ k < 10, 0 < k → k.digitChar ≠ '0' := by decide
      exact hall n hn h
    · obtain ⟨c, cs, hdigits, hc⟩ := ih (n / 10) (by omega) (by omega)
      refine ⟨c, cs ++ [(n % 10).digitChar], ?_, hc⟩
      rw [Nat.toDigits_of_base_le (by decide) (Nat.le_of_not_lt hn), hdigits, List.cons_append]

theorem scanWhole_toDigits (n : Nat) {rest : List Char} (hrest : Ends rest) :
    scanWhole (Nat.toDigits 10 n ++ rest) = .ok (Nat.toDigits 10 n, rest) := by
  have hsome : someDigits (Nat.toDigits 10 n ++ rest) = .ok (Nat.toDigits 10 n, rest) :=
    someDigits_append (fun c hc => isDigit_of_mem_toDigits hc) Nat.toDigits_ne_nil hrest
  unfold scanWhole
  rw [hsome]
  by_cases hn : n = 0
  · subst hn
    rfl
  · obtain ⟨c, cs, hdigits, hc⟩ := head_toDigits (Nat.pos_of_ne_zero hn)
    rw [hdigits]
    simp [bind, Except.bind, pure, Except.pure, hc]

theorem scanFraction_of_ends {rest : List Char} (h : Ends rest) :
    scanFraction rest = .ok (none, rest) := by
  cases rest with
  | nil => rfl
  | cons c rest => simp [scanFraction, h.2.1]

theorem scanExponent_of_ends {rest : List Char} (h : Ends rest) :
    scanExponent rest = .ok (none, rest) := by
  cases rest with
  | nil => rfl
  | cons c rest => simp [scanExponent, h.2.2.1, h.2.2.2]

theorem scanUnsigned_toDigits (negative : Bool) (n : Nat) {rest : List Char} (h : Ends rest) :
    scanUnsigned negative (Nat.toDigits 10 n ++ rest) =
      .ok (⟨negative, Nat.toDigits 10 n, none, none⟩, rest) := by
  simp [scanUnsigned, scanWhole_toDigits n h, scanFraction_of_ends h, scanExponent_of_ends h, bind,
    Except.bind, pure, Except.pure]

/-- The literal that an integer is written as. -/
def Literal.ofInt (z : Int) : Literal := ⟨z < 0, Nat.toDigits 10 z.natAbs, none, none⟩

theorem exists_digit_toDigits (n : Nat) :
    ∃ c cs, Nat.toDigits 10 n = c :: cs ∧ c.isDigit = true := by
  obtain ⟨c, cs, hdigits⟩ := List.exists_cons_of_ne_nil (Nat.toDigits_ne_nil (b := 10) (n := n))
  refine ⟨c, cs, hdigits, isDigit_of_mem_toDigits (n := n) ?_⟩
  rw [hdigits]
  exact List.mem_cons_self

theorem toList_signedDecimal (z : Int) :
    (Text.signedDecimal z).toList = if z < 0 then '-' :: Nat.toDigits 10 z.natAbs
      else Nat.toDigits 10 z.natAbs := by
  unfold Text.signedDecimal Text.decimal
  split <;> simp

theorem exists_cons_signedDecimal (z : Int) :
    ∃ c cs, (Text.signedDecimal z).toList = c :: cs ∧ (c = '-' ∨ c.isDigit = true) := by
  rw [toList_signedDecimal]
  split
  · exact ⟨'-', _, rfl, .inl rfl⟩
  · obtain ⟨c, cs, hdigits, hc⟩ := exists_digit_toDigits z.natAbs
    exact ⟨c, cs, hdigits, .inr hc⟩

theorem scanNumber_signedDecimal (z : Int) {rest : List Char} (h : Ends rest) :
    scanNumber ((Text.signedDecimal z).toList ++ rest) = .ok (Literal.ofInt z, rest) := by
  rw [toList_signedDecimal]
  by_cases hneg : z < 0
  · simp [hneg, scanNumber, scanUnsigned_toDigits true z.natAbs h, Literal.ofInt]
  · obtain ⟨c, cs, hdigits, hc⟩ := exists_digit_toDigits z.natAbs
    have hsign : c ≠ '-' := by
      rintro rfl
      cases hc
    have hscan := scanUnsigned_toDigits false z.natAbs h
    rw [hdigits] at hscan
    rw [if_neg hneg, hdigits]
    simpa [scanNumber, hsign, hneg, Literal.ofInt, hdigits] using hscan

theorem natOfDigits_toDigits (n : Nat) : natOfDigits (Nat.toDigits 10 n) = n := by
  have hvalue := Nat.ofDigitChars_ten_toDigits (n := n)
  rw [Nat.ofDigitChars_eq_foldl] at hvalue
  simpa only [natOfDigits, Nat.mul_comm 10] using hvalue

/-- An integer that fits in 64 bits, signed or unsigned, is the value of its literal. -/
theorem value_ofInt {z : Int} (hlow : -2 ^ 63 ≤ z) (hhigh : z < 2 ^ 64) :
    (Literal.ofInt z).value = .ok (.int z) := by
  have hint : (Literal.ofInt z).int? = some z := by
    simp only [Literal.int?, Literal.ofInt, natOfDigits_toDigits, Option.isSome_none, Bool.or_self,
      Bool.false_eq_true, if_false, decide_eq_true_eq]
    by_cases hneg : z < 0
    · rw [if_pos hneg, if_pos (by omega)]
      congr 1
      omega
    · rw [if_neg hneg, if_pos (by omega)]
      congr 1
      omega
  simp [Literal.value, hint]

end Rv32Asm.Json

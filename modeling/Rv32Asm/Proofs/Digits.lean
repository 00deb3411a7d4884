import Mathlib
import Rv32Asm.Text.Digits

/-!
# Numbers as digits

Digits are read back as the number that they are written for, so a number is written in one way
only. This holds for texts without leading zeros (`toDigits_inj`), for texts of a fixed width up to
the digits that do not fit (`valueOf_fixedDigits`), and for numbers with a sign
(`signed_injective`).
-/

namespace Rv32Asm.Text

/-- The number that digits in base `b` stand for. -/
def valueOf (b : Nat) (cs : List Char) : Nat :=
  cs.foldl (fun n c => n * b + (hexDigitValue? c).getD 0) 0

theorem hexDigitValue?_digitChar {d : Nat} (h : d < 16) : hexDigitValue? d.digitChar = some d := by
  have hall : ∀ k < 16, hexDigitValue? k.digitChar = some k := by decide
  exact hall d h

theorem valueOf_append_digitChar {b d : Nat} (cs : List Char) (h : d < 16) :
    valueOf b (cs ++ [d.digitChar]) = valueOf b cs * b + d := by
  unfold valueOf
  rw [List.foldl_append, List.foldl_cons, List.foldl_nil, hexDigitValue?_digitChar h,
    Option.getD_some]

theorem valueOf_toDigits {b : Nat} (hb : 1 < b) (hb' : b ≤ 16) (n : Nat) :
    valueOf b (Nat.toDigits b n) = n := by
  induction n using Nat.strong_induction_on with
  | _ n ih =>
    by_cases hn : n < b
    · rw [Nat.toDigits_of_lt_base hn, ← List.nil_append [n.digitChar],
        valueOf_append_digitChar [] (by omega)]
      simp [valueOf]
    · have hlast : n % b < b := Nat.mod_lt n (by omega)
      rw [Nat.toDigits_of_base_le hb (Nat.le_of_not_lt hn),
        valueOf_append_digitChar _ (by omega), ih (n / b) (Nat.div_lt_self (by omega) hb),
        Nat.div_add_mod']

theorem valueOf_fixedDigits {b : Nat} (hb : 0 < b) (hb' : b ≤ 16) (k n : Nat) :
    valueOf b (fixedDigits b k n) = n % b ^ k := by
  induction k generalizing n with
  | zero => simp [fixedDigits, valueOf, Nat.mod_one]
  | succ k ih =>
    have hlast : n % b < b := Nat.mod_lt n hb
    rw [fixedDigits, valueOf_append_digitChar _ (by omega), ih, pow_succ', Nat.mod_mul,
      Nat.mul_comm, Nat.add_comm]

theorem toDigits_inj {b n n' : Nat} (hb : 1 < b) (hb' : b ≤ 16)
    (h : Nat.toDigits b n = Nat.toDigits b n') : n = n' := by
  rw [← valueOf_toDigits hb hb' n, h, valueOf_toDigits hb hb']

theorem exists_digitChar_of_mem_toDigits {b n : Nat} {c : Char} (hb : 1 < b)
    (h : c ∈ Nat.toDigits b n) : ∃ d : Nat, c = d.digitChar := by
  induction n using Nat.strong_induction_on with
  | _ n ih =>
    by_cases hn : n < b
    · rw [Nat.toDigits_of_lt_base hn] at h
      exact ⟨n, List.mem_singleton.mp h⟩
    · rw [Nat.toDigits_of_base_le hb (Nat.le_of_not_lt hn)] at h
      rcases List.mem_append.mp h with hinit | hlast
      · exact ih (n / b) (Nat.div_lt_self (by omega) hb) hinit
      · exact ⟨n % b, List.mem_singleton.mp hlast⟩

theorem exists_digitChar_of_mem_fixedDigits {b k n : Nat} {c : Char} (h : c ∈ fixedDigits b k n) :
    ∃ d : Nat, c = d.digitChar := by
  induction k generalizing n with
  | zero => cases h
  | succ k ih =>
    rcases List.mem_append.mp h with hinit | hlast
    · exact ih hinit
    · exact ⟨n % b, List.mem_singleton.mp hlast⟩

theorem decimal_injective : Function.Injective decimal := by
  intro n n' h
  exact toDigits_inj (by decide) (by decide) (String.ofList_inj.mp h)

theorem hex_injective : Function.Injective hex := by
  intro n n' h
  exact toDigits_inj (by decide) (by decide) (String.ofList_inj.mp h)

/-- A character that is no digit does not occur among digits. -/
theorem not_mem_toDigits {b : Nat} {c : Char} (hb : 1 < b) (hc : ∀ d : Nat, d.digitChar ≠ c)
    (n : Nat) : c ∉ Nat.toDigits b n := by
  intro h
  obtain ⟨d, hd⟩ := exists_digitChar_of_mem_toDigits hb h
  exact hc d hd.symm

theorem not_mem_fixedDigits {c : Char} (hc : ∀ d : Nat, d.digitChar ≠ c) (b k n : Nat) :
    c ∉ fixedDigits b k n := by
  intro h
  obtain ⟨d, hd⟩ := exists_digitChar_of_mem_fixedDigits h
  exact hc d hd.symm

/-- Digits do not start with a sign. -/
theorem minus_append_ne_toDigits {b : Nat} (hb : 1 < b) (s t : String) (n : Nat) :
    "-" ++ s ≠ String.ofList (Nat.toDigits b n) ++ t := by
  intro h
  have hlist := congrArg String.toList h
  simp only [String.toList_append, String.toList_ofList] at hlist
  obtain ⟨c, cs, hdigits⟩ := List.exists_cons_of_ne_nil (Nat.toDigits_ne_nil (b := b) (n := n))
  obtain ⟨d, hd⟩ := exists_digitChar_of_mem_toDigits (c := c) (n := n) hb
    (by rw [hdigits]; exact List.mem_cons_self)
  rw [hdigits] at hlist
  have hsign : '-' = c := (List.cons.inj hlist).1
  exact Nat.digitChar_ne '-' rfl (hsign.trans hd).symm

/-- Numbers of either sign are told apart if their magnitudes are, and no magnitude starts with a
sign. -/
theorem signed_injective {magnitude : Nat → String} (hinj : Function.Injective magnitude)
    (hsign : ∀ s n, "-" ++ s ≠ magnitude n) :
    Function.Injective fun z : Int =>
      if z < 0 then "-" ++ magnitude z.natAbs else magnitude z.natAbs := by
  intro z z' h
  dsimp only at h
  by_cases hneg : z < 0
  · by_cases hneg' : z' < 0
    · rw [if_pos hneg, if_pos hneg', String.append_right_inj] at h
      have habs := hinj h
      omega
    · rw [if_pos hneg, if_neg hneg'] at h
      exact absurd h (hsign _ _)
  · by_cases hneg' : z' < 0
    · rw [if_neg hneg, if_pos hneg'] at h
      exact absurd h.symm (hsign _ _)
    · rw [if_neg hneg, if_neg hneg'] at h
      have habs := hinj h
      omega

theorem signedDecimal_injective : Function.Injective signedDecimal := by
  apply signed_injective decimal_injective
  intro s n h
  have hdigits := minus_append_ne_toDigits (b := 10) (by decide) s "" n
  rw [String.append_empty] at hdigits
  exact hdigits h

theorem signedDecimal_natCast (n : Nat) : signedDecimal n = decimal n := by
  unfold signedDecimal
  rw [if_neg (by omega), Int.natAbs_natCast]

end Rv32Asm.Text

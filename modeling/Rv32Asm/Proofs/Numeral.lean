import Mathlib
import Rv32Asm.Proofs.Digits
import Rv32Asm.Proofs.Field
import Rv32Asm.Text.Numeral

/-!
# Hexadecimal digits and numerals

A digit is known by its capital form (`hexDigitValue?_eq_some_iff`). Two characters are a numeral if
the second is a digit and the first is a digit or a plus sign (`readNumeral_pair_eq_ok_iff`), and
digits of a fixed width are read back as their number (`readNumeral_fixedDigits`). In any base, a
text is read exactly if it is digits, possibly after one plus sign, of a number that is not too
large (`readNumeral_eq_ok_iff`), and so is the text of an address (`readAddress_eq_ok_iff`).
Trimming takes away the white space around a text and nothing else (`trim_append`).
-/

namespace Rv32Asm.Text

/-! ### Digits -/

/-- A hexadecimal digit of either case. -/
def IsHexDigit (c : Char) : Prop :=
  '0' ≤ c ∧ c ≤ '9' ∨ 'a' ≤ c ∧ c ≤ 'f' ∨ 'A' ≤ c ∧ c ≤ 'F'

instance (c : Char) : Decidable (IsHexDigit c) :=
  inferInstanceAs (Decidable ('0' ≤ c ∧ c ≤ '9' ∨ 'a' ≤ c ∧ c ≤ 'f' ∨ 'A' ≤ c ∧ c ≤ 'F'))

/-- The capital digit that a character of a pair is taken for: a plus sign passes for a zero. -/
def capitalDigit (c : Char) : Char := if c = '+' then '0' else c.toUpper

theorem isHexDigit_of_hexDigitValue? {c : Char} {d : Nat} (h : hexDigitValue? c = some d) :
    IsHexDigit c := by
  unfold hexDigitValue? at h
  split at h
  · next hc => exact .inl hc
  · split at h
    · next hc => exact .inr (.inl hc)
    · split at h
      · next hc => exact .inr (.inr hc)
      · cases h

theorem toNat_lt_of_isHexDigit {c : Char} (h : IsHexDigit c) : c.toNat < 128 := by
  have hle : c ≤ 'f' := by
    rcases h with ⟨-, h⟩ | ⟨-, h⟩ | ⟨-, h⟩
    · exact le_trans h (by decide)
    · exact h
    · exact le_trans h (by decide)
  have hnat : c.toNat ≤ 'f'.toNat := UInt32.le_iff_toNat_le.mp (Char.le_def.mp hle)
  exact Nat.lt_of_le_of_lt hnat (by decide)

theorem eq_toUpper_or_eq_toLower (c : Char) : c = c.toUpper ∨ c = c.toUpper.toLower := by
  by_cases hlower : c.isLower = true
  · right
    rw [Char.toLower_toUpper_eq_toLower,
      Char.toLower_eq_of_not_isUpper (Char.not_isUpper_of_isLower hlower)]
  · left
    rw [Char.toUpper_eq_of_not_isLower hlower]

theorem eq_of_toUpper_eq_colon {c : Char} (h : c.toUpper = ':') : c = ':' := by
  rcases eq_toUpper_or_eq_toLower c with hc | hc
  · rw [hc, h]
  · rw [hc, h]
    rfl

/-- A digit is known by its capital form. -/
theorem hexDigitValue?_eq_some_iff {c : Char} {d : Nat} :
    hexDigitValue? c = some d ↔ d < 16 ∧ c.toUpper = d.digitChar.toUpper := by
  constructor
  · intro h
    have hall : ∀ n < 128, ∀ k ∈ hexDigitValue? (Char.ofNat n),
        k < 16 ∧ (Char.ofNat n).toUpper = k.digitChar.toUpper := by decide
    have hc := hall c.toNat (toNat_lt_of_isHexDigit (isHexDigit_of_hexDigitValue? h))
    rw [Char.ofNat_toNat] at hc
    exact hc d h
  · rintro ⟨hlt, hupper⟩
    have hall : ∀ k < 16, hexDigitValue? k.digitChar.toUpper = some k ∧
        hexDigitValue? k.digitChar.toUpper.toLower = some k := by decide
    rcases eq_toUpper_or_eq_toLower c with hc | hc
    · rw [hc, hupper]
      exact (hall d hlt).1
    · rw [hc, hupper]
      exact (hall d hlt).2

theorem toUpper_digitChar_inj {d d' : Nat} (h : d < 16) (h' : d' < 16)
    (heq : d.digitChar.toUpper = d'.digitChar.toUpper) : d = d' := by
  have hd := hexDigitValue?_eq_some_iff.mpr ⟨h, rfl⟩
  have hd' := hexDigitValue?_eq_some_iff.mpr ⟨h', heq⟩
  rw [hd] at hd'
  exact Option.some.inj hd'

theorem toUpper_digitChar_ne_plus {n : Nat} (h : n < 16) : n.digitChar.toUpper ≠ '+' := by
  have hall : ∀ k < 16, k.digitChar.toUpper ≠ '+' := by decide
  exact hall n h

theorem capitalDigit_eq_iff {c : Char} {d : Nat} (h : d < 16) :
    capitalDigit c = d.digitChar.toUpper ↔ hexDigitValue? c = some d ∨ c = '+' ∧ d = 0 := by
  by_cases hplus : c = '+'
  · subst hplus
    have hvalue : hexDigitValue? '+' = none := by decide
    have hzero : capitalDigit '+' = (0).digitChar.toUpper := by decide
    rw [hvalue, hzero]
    constructor
    · intro heq
      exact .inr ⟨rfl, (toUpper_digitChar_inj (by decide) h heq).symm⟩
    · rintro (habs | ⟨-, rfl⟩)
      · cases habs
      · rfl
  · unfold capitalDigit
    rw [if_neg hplus, hexDigitValue?_eq_some_iff]
    simp [h, hplus]

theorem toUpper_of_isBlank {c : Char} (h : isBlank c = true) : c.toUpper = c := by
  apply Char.toUpper_eq_of_not_isLower
  intro hlower
  simp [Char.isLower, UInt32.le_iff_toNat_le] at hlower
  simp [isBlank, blankRanges] at h
  omega

theorem isBlank_toUpper_digitChar {n : Nat} (h : n < 16) :
    isBlank n.digitChar.toUpper = false := by
  have hall : ∀ k < 16, isBlank k.digitChar.toUpper = false := by decide
  exact hall n h

/-! ### Numerals -/

theorem digitValue?_eq_some_iff {base d : Nat} {c : Char} :
    digitValue? base c = some d ↔ hexDigitValue? c = some d ∧ d < base := by
  unfold digitValue?
  simp [Option.filter_eq_some_iff]

theorem appendDigit_eq_ok_iff {base bound n m : Nat} {c : Char} :
    appendDigit base bound n c = .ok m ↔
      ∃ d, digitValue? base c = some d ∧ n * base + d < bound ∧ n * base + d = m := by
  unfold appendDigit
  cases digitValue? base c with
  | none => simp
  | some d =>
    by_cases hlt : n * base + d < bound
    · simp [hlt]
    · simp [hlt]

/-- Any hexadecimal digit can be appended to a hexadecimal numeral. -/
theorem appendDigit_hex_eq_ok_iff {bound n m : Nat} {c : Char} :
    appendDigit 16 bound n c = .ok m ↔
      ∃ d, hexDigitValue? c = some d ∧ n * 16 + d < bound ∧ n * 16 + d = m := by
  have hvalue : ∀ d, digitValue? 16 c = some d ↔ hexDigitValue? c = some d := by
    intro d
    rw [digitValue?_eq_some_iff]
    exact ⟨And.left, fun hd => ⟨hd, (hexDigitValue?_eq_some_iff.mp hd).1⟩⟩
  simp only [appendDigit_eq_ok_iff, hvalue]

theorem readNumeral_cons_of_ne_plus {base bound : Nat} {c : Char} {cs : List Char}
    (h : c ≠ '+') :
    readNumeral base bound (c :: cs) = (c :: cs).foldlM (appendDigit base bound) 0 := by
  unfold readNumeral
  split
  · next heq => cases heq
  · next heq => exact absurd (List.cons.inj heq).1 h
  · next heq => exact absurd (List.cons.inj heq).1 h
  · rfl

/-- A pair of characters is a numeral if the second is a digit and the first is a digit or a plus
sign. -/
theorem readNumeral_pair_eq_ok_iff {a b : Char} {n : Nat} :
    readNumeral 16 0x100 [a, b] = .ok n ↔
      ∃ hi lo, (hexDigitValue? a = some hi ∨ a = '+' ∧ hi = 0) ∧ hexDigitValue? b = some lo ∧
        hi * 16 + lo = n := by
  by_cases hplus : a = '+'
  · subst hplus
    have hread : readNumeral 16 0x100 ['+', b] = appendDigit 16 0x100 0 b := by
      change appendDigit 16 0x100 0 b >>= pure = _
      exact bind_pure _
    have hvalue : hexDigitValue? '+' = none := by decide
    rw [hread, appendDigit_hex_eq_ok_iff]
    constructor
    · rintro ⟨lo, hlo, -, hn⟩
      exact ⟨0, lo, .inr ⟨rfl, rfl⟩, hlo, hn⟩
    · rintro ⟨hi, lo, hhi, hlo, hn⟩
      have hlt := (hexDigitValue?_eq_some_iff.mp hlo).1
      rcases hhi with hhi | ⟨-, rfl⟩
      · rw [hvalue] at hhi
        cases hhi
      · exact ⟨lo, hlo, by omega, hn⟩
  · rw [readNumeral_cons_of_ne_plus hplus, List.foldlM_cons, bind_eq_ok]
    simp only [List.foldlM_cons, List.foldlM_nil, bind_pure, appendDigit_hex_eq_ok_iff]
    constructor
    · rintro ⟨m, ⟨hi, hhi, -, rfl⟩, lo, hlo, -, hn⟩
      exact ⟨hi, lo, .inl hhi, hlo, by omega⟩
    · rintro ⟨hi, lo, hhi, hlo, hn⟩
      have hlt := (hexDigitValue?_eq_some_iff.mp hlo).1
      rcases hhi with hhi | ⟨habs, -⟩
      · have hlt' := (hexDigitValue?_eq_some_iff.mp hhi).1
        exact ⟨hi, ⟨hi, hhi, by omega, by omega⟩, lo, hlo, by omega, hn⟩
      · exact absurd habs hplus

/-- Digits of a fixed width are put together again, digit by digit. -/
theorem foldlM_appendDigit_fixedDigits {bound k : Nat} (hbound : 16 ^ k ≤ bound) (n : Nat) :
    (fixedDigits 16 k n).foldlM (appendDigit 16 bound) 0 = .ok (n % 16 ^ k) := by
  induction k generalizing n with
  | zero =>
    rw [pow_zero, Nat.mod_one]
    rfl
  | succ k ih =>
    have hpow : 16 ^ (k + 1) = 16 * 16 ^ k := pow_succ' 16 k
    have hlast : n % 16 < 16 := Nat.mod_lt n (by decide)
    have hvalue : n / 16 % 16 ^ k * 16 + n % 16 = n % 16 ^ (k + 1) := by
      rw [hpow, Nat.mod_mul, Nat.mul_comm, Nat.add_comm]
    have hlt : n % 16 ^ (k + 1) < 16 ^ (k + 1) := Nat.mod_lt n (by positivity)
    rw [fixedDigits, List.foldlM_append, ih (by omega), bind_eq_ok]
    refine ⟨_, rfl, ?_⟩
    rw [List.foldlM_cons, bind_eq_ok]
    refine ⟨_, appendDigit_hex_eq_ok_iff.mpr
      ⟨n % 16, hexDigitValue?_digitChar hlast, ?_, hvalue⟩, rfl⟩
    omega

/-- A number is read back from its hexadecimal digits of a fixed width. -/
theorem readNumeral_fixedDigits {bound k n : Nat} (hk : 0 < k) (hn : n < 16 ^ k)
    (hbound : 16 ^ k ≤ bound) : readNumeral 16 bound (fixedDigits 16 k n) = .ok n := by
  have hfold := foldlM_appendDigit_fixedDigits hbound n
  rw [Nat.mod_eq_of_lt hn] at hfold
  have hplus : '+' ∉ fixedDigits 16 k n :=
    not_mem_fixedDigits (fun d => Nat.digitChar_ne '+' rfl) 16 k n
  have hlength := length_fixedDigits 16 k n
  cases hdigits : fixedDigits 16 k n with
  | nil =>
    rw [hdigits, List.length_nil] at hlength
    omega
  | cons c cs =>
    rw [hdigits] at hfold hplus
    rw [readNumeral_cons_of_ne_plus (List.ne_of_not_mem_cons hplus).symm, hfold]

/-! ### Numerals of any length -/

/-- The digits in front only make a number larger. -/
theorem le_foldl_digits {base : Nat} (hbase : 0 < base) (cs : List Char) (n : Nat) :
    n ≤ cs.foldl (fun n c => n * base + (hexDigitValue? c).getD 0) n := by
  induction cs generalizing n with
  | nil => exact Nat.le_refl n
  | cons c cs ih =>
    have hstep : n ≤ n * base := Nat.le_mul_of_pos_right n hbase
    have hrest := ih (n * base + (hexDigitValue? c).getD 0)
    rw [List.foldl_cons]
    omega

/-- Digits can be appended one after the other exactly if the number that they all make is below
the bound: the numbers on the way are no larger. -/
theorem foldlM_appendDigit_eq_ok_iff {base bound n m : Nat} (hbase : 0 < base) {cs : List Char} :
    cs.foldlM (appendDigit base bound) n = .ok m ↔
      (∀ c ∈ cs, (digitValue? base c).isSome) ∧
        cs.foldl (fun n c => n * base + (hexDigitValue? c).getD 0) n = m ∧
        (cs = [] ∨ m < bound) := by
  induction cs generalizing n with
  | nil => simp [pure, Except.pure]
  | cons c cs ih =>
    rw [List.foldlM_cons, bind_eq_ok, List.forall_mem_cons, List.foldl_cons]
    simp only [ih, appendDigit_eq_ok_iff]
    constructor
    · rintro ⟨_, ⟨d, hd, hlt, rfl⟩, hdigits, hvalue, hend⟩
      have hhex := (digitValue?_eq_some_iff.mp hd).1
      refine ⟨⟨by simp [hd], hdigits⟩, by rwa [hhex], .inr ?_⟩
      rcases hend with rfl | hend
      · exact hvalue ▸ hlt
      · exact hend
    · rintro ⟨⟨hc, hdigits⟩, hvalue, hend⟩
      obtain ⟨d, hd⟩ := Option.isSome_iff_exists.mp hc
      have hhex := (digitValue?_eq_some_iff.mp hd).1
      have hm : m < bound := hend.resolve_left (List.cons_ne_nil c cs)
      rw [hhex] at hvalue
      have hle := le_foldl_digits hbase cs (n * base + d)
      refine ⟨_, ⟨d, hd, ?_, rfl⟩, hdigits, hvalue, .inr hm⟩
      rw [Option.getD_some] at hvalue
      omega

/-- The text is a numeral of the number: digits, possibly after one plus sign. -/
def IsNumeral (base : Nat) (cs : List Char) (n : Nat) : Prop :=
  ∃ digits, (cs = digits ∨ cs = '+' :: digits) ∧ digits ≠ [] ∧
    (∀ c ∈ digits, (digitValue? base c).isSome) ∧ valueOf base digits = n

theorem isNumeral_plus_cons_iff {base n : Nat} {cs : List Char} :
    IsNumeral base ('+' :: cs) n ↔
      cs ≠ [] ∧ (∀ c ∈ cs, (digitValue? base c).isSome) ∧ valueOf base cs = n := by
  constructor
  · rintro ⟨digits, hcs, hne, hdigits, hvalue⟩
    rcases hcs with rfl | hcs
    · have hplus := hdigits '+' List.mem_cons_self
      simp [digitValue?, hexDigitValue?] at hplus
    · obtain rfl := (List.cons.inj hcs).2
      exact ⟨hne, hdigits, hvalue⟩
  · rintro ⟨hne, hdigits, hvalue⟩
    exact ⟨cs, .inr rfl, hne, hdigits, hvalue⟩

theorem isNumeral_cons_iff {base n : Nat} {c : Char} {cs : List Char} (h : c ≠ '+') :
    IsNumeral base (c :: cs) n ↔
      (∀ c' ∈ c :: cs, (digitValue? base c').isSome) ∧ valueOf base (c :: cs) = n := by
  constructor
  · rintro ⟨digits, hcs, -, hdigits, hvalue⟩
    rcases hcs with rfl | hcs
    · exact ⟨hdigits, hvalue⟩
    · exact absurd (List.cons.inj hcs).1 h
  · rintro ⟨hdigits, hvalue⟩
    exact ⟨c :: cs, .inl rfl, List.cons_ne_nil c cs, hdigits, hvalue⟩

/-- The numerals of the numbers below the bound are read, and nothing else. -/
theorem readNumeral_eq_ok_iff {base bound n : Nat} (hbase : 0 < base) {cs : List Char} :
    readNumeral base bound cs = .ok n ↔ IsNumeral base cs n ∧ n < bound := by
  have hfold : ∀ {digits : List Char}, digits ≠ [] →
      (digits.foldlM (appendDigit base bound) 0 = .ok n ↔
        ((∀ c ∈ digits, (digitValue? base c).isSome) ∧ valueOf base digits = n) ∧ n < bound) := by
    intro digits hne
    rw [foldlM_appendDigit_eq_ok_iff hbase, and_assoc, or_iff_right hne]
    rfl
  cases cs with
  | nil => simp [readNumeral, IsNumeral]
  | cons c cs =>
    by_cases hplus : c = '+'
    · subst hplus
      rw [isNumeral_plus_cons_iff]
      cases cs with
      | nil => simp [readNumeral]
      | cons d cs =>
        have hne := List.cons_ne_nil d cs
        rw [and_iff_right hne]
        exact hfold hne
    · rw [readNumeral_cons_of_ne_plus hplus, hfold (List.cons_ne_nil c cs),
        isNumeral_cons_iff hplus]

/-! ### White space -/

/-- Trimming takes away the white space around a text that has none itself. -/
theorem trim_append {before cs after : List Char} (hbefore : ∀ c ∈ before, isBlank c = true)
    (h : ∀ c ∈ cs, isBlank c = false) (hafter : ∀ c ∈ after, isBlank c = true) :
    trim (before ++ cs ++ after) = cs := by
  have hdrop : ∀ l : List Char, (∀ c ∈ l, isBlank c = false) → l.dropWhile isBlank = l := by
    intro l hl
    cases l with
    | nil => rfl
    | cons c l =>
      have hc := hl c List.mem_cons_self
      rw [List.dropWhile_cons_of_neg (by simp [hc])]
  have hrest : (cs ++ after).reverse.dropWhile isBlank = cs.reverse := by
    rw [List.reverse_append,
      List.dropWhile_append_of_pos fun c hc => hafter c (List.mem_reverse.mp hc),
      hdrop cs.reverse fun c hc => h c (List.mem_reverse.mp hc)]
  unfold trim
  rw [List.append_assoc, List.dropWhile_append_of_pos hbefore, List.dropWhile_append, hdrop cs h]
  cases cs with
  | nil =>
    rw [if_pos List.isEmpty_nil, List.dropWhile_eq_nil_iff.mpr hafter]
    rfl
  | cons c cs => rw [if_neg (by simp), hrest, List.reverse_reverse]

/-! ### Addresses -/

/-- The text is an address: white space around a numeral of 32 bits, which is hexadecimal after
`0x` or `0X` and decimal otherwise. -/
def IsAddress (s : String) (n : Nat) : Prop :=
  ((∃ cs, (trim s.toList = '0' :: 'x' :: cs ∨ trim s.toList = '0' :: 'X' :: cs) ∧
      IsNumeral 16 cs n) ∨ IsNumeral 10 (trim s.toList) n) ∧ n < 2 ^ 32

/-- A decimal numeral does not start like a hexadecimal one. -/
theorem not_isNumeral_of_mark {n : Nat} {mark : Char} (hmark : digitValue? 10 mark = none)
    (cs : List Char) : ¬ IsNumeral 10 ('0' :: mark :: cs) n := by
  rw [isNumeral_cons_iff (by decide)]
  rintro ⟨hdigits, -⟩
  have hdigit := hdigits mark (by simp)
  simp [hmark] at hdigit

theorem isAddress_iff_of_mark {s : String} {n : Nat} {mark : Char} {cs : List Char}
    (hmark : mark = 'x' ∨ mark = 'X') (htrim : trim s.toList = '0' :: mark :: cs) :
    IsAddress s n ↔ IsNumeral 16 cs n ∧ n < 2 ^ 32 := by
  have hdecimal : ¬ IsNumeral 10 ('0' :: mark :: cs) n := by
    rcases hmark with rfl | rfl
    · exact not_isNumeral_of_mark (by decide) cs
    · exact not_isNumeral_of_mark (by decide) cs
  unfold IsAddress
  rw [htrim, or_iff_left hdecimal]
  simp only [List.cons.injEq, true_and]
  rcases hmark with rfl | rfl
  · simp
  · simp

theorem isAddress_iff_of_no_mark {s : String} {n : Nat}
    (hx : ∀ cs, trim s.toList ≠ '0' :: 'x' :: cs) (hX : ∀ cs, trim s.toList ≠ '0' :: 'X' :: cs) :
    IsAddress s n ↔ IsNumeral 10 (trim s.toList) n ∧ n < 2 ^ 32 := by
  unfold IsAddress
  simp [hx, hX]

theorem map_readNumeral_eq_ok_iff {base : Nat} (hbase : 0 < base) {cs : List Char}
    {address : BitVec 32} :
    (readNumeral base 0x100000000 cs).map (BitVec.ofNat 32) = .ok address ↔
      IsNumeral base cs address.toNat ∧ address.toNat < 2 ^ 32 := by
  refine map_eq_ok.trans ?_
  simp only [readNumeral_eq_ok_iff hbase]
  constructor
  · rintro ⟨n, ⟨hn, hlt⟩, rfl⟩
    rw [BitVec.toNat_ofNat, Nat.mod_eq_of_lt hlt]
    exact ⟨hn, hlt⟩
  · rintro ⟨hn, hlt⟩
    exact ⟨address.toNat, ⟨hn, hlt⟩, by simp⟩

/-- The addresses are read, and nothing else. -/
theorem readAddress_eq_ok_iff {s : String} {address : BitVec 32} :
    readAddress s = .ok address ↔ IsAddress s address.toNat := by
  unfold readAddress
  dsimp only
  split
  · next cs htrim =>
    rw [map_readNumeral_eq_ok_iff (by decide), isAddress_iff_of_mark (.inl rfl) htrim]
  · next cs htrim =>
    rw [map_readNumeral_eq_ok_iff (by decide), isAddress_iff_of_mark (.inr rfl) htrim]
  · next hx hX =>
    rw [map_readNumeral_eq_ok_iff (by decide), isAddress_iff_of_no_mark hx hX]

end Rv32Asm.Text

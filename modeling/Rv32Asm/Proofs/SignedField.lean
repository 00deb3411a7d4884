import Mathlib
import Rv32Asm.Proofs.Field

/-!
# Signed fields of every width

Packing and unpacking are inverse to each other, whatever the width of the field. Both are also
carried out in registers of fixed size, by arithmetic that has no result when it overflows
(`Checked`): the bounds of a field are found with a shift, a negation and a subtraction in 64 bits,
and a field is extended by its sign with two shifts in 32. This arithmetic always has a result, and
it is the packed or the unpacked number.
-/

namespace Rv32Asm

/-! ### Packing and unpacking -/

theorem packSigned_of_out_of_range {w : Nat} (hw : 0 < w) {value : Int}
    (h : ¬ (-2 ^ (w - 1) ≤ value ∧ value < 2 ^ (w - 1))) :
    packSigned w value = .error (.signedRange value w) :=
  packSigned_of_not_exists (mt (exists_toInt_eq_iff hw).mp h)

theorem exists_packSigned_iff {w : Nat} (hw : 0 < w) {value : Int} :
    (∃ p, packSigned w value = .ok p) ↔ -2 ^ (w - 1) ≤ value ∧ value < 2 ^ (w - 1) := by
  simp only [packSigned_eq_ok_iff]
  exact exists_toInt_eq_iff hw

/-- What a field stands for is congruent to its bits as a number. -/
theorem toNat_modEq_toInt {w : Nat} (p : BitVec w) : (p.toNat : Int) ≡ p.toInt [ZMOD 2 ^ w] := by
  rw [BitVec.toInt_eq_toNat_bmod]
  exact_mod_cast Int.bmod_emod.symm

theorem toNat_setWidth_field {w : Nat} (hw : w ≤ 32) (p : BitVec w) :
    (p.setWidth 32).toNat = p.toNat := by
  rw [BitVec.toNat_setWidth, Nat.mod_eq_of_lt]
  exact Nat.lt_of_lt_of_le p.isLt (Nat.pow_le_pow_right (by decide) hw)

theorem unpackSigned_setWidth {w : Nat} (hw : w ≤ 32) (p : BitVec w) :
    unpackSigned w (p.setWidth 32) = p.toInt := by
  unfold unpackSigned
  rw [BitVec.setWidth_setWidth (by omega), BitVec.setWidth_eq]

/-- The number that a word is unpacked to depends on its low bits only. -/
theorem unpackSigned_congr {w : Nat} {bits bits' : Word}
    (h : bits.toNat % 2 ^ w = bits'.toNat % 2 ^ w) :
    unpackSigned w bits = unpackSigned w bits' := by
  have hlow : bits.setWidth w = bits'.setWidth w := by
    apply BitVec.eq_of_toNat_eq
    rw [BitVec.toNat_setWidth, BitVec.toNat_setWidth, h]
  unfold unpackSigned
  rw [hlow]

theorem packSigned_unpackSigned (w : Nat) (bits : Word) :
    packSigned w (unpackSigned w bits) = .ok (bits.setWidth w) :=
  packSigned_eq_ok_iff.mpr rfl

/-! ### Arithmetic that can overflow -/

namespace Checked

variable {n : Nat}

/-- The register moved up by `k` places, which have to be fewer than it has bits. -/
def shiftLeft? (x : BitVec n) (k : Nat) : Option (BitVec n) :=
  if k < n then some (x <<< k) else none

/-- The register moved down by `k` places, which have to be fewer than it has bits; its sign bit is
repeated from above. -/
def shiftRight? (x : BitVec n) (k : Nat) : Option (BitVec n) :=
  if k < n then some (x.sshiftRight k) else none

/-- The negated register, if it can hold that number. -/
def neg? (x : BitVec n) : Option (BitVec n) :=
  if x.negOverflow then none else some (-x)

/-- The difference of two registers, if a register can hold that number. -/
def sub? (x y : BitVec n) : Option (BitVec n) :=
  if x.ssubOverflow y then none else some (x - y)

/-- Packs a number of 64 bits: the bounds of the field are computed in 64 bits, and the field is the
low `w` bits of the lower half of the number. -/
def packSigned? (w : Nat) (value : BitVec 64) : Option (Except FieldError Word) := do
  let least ← neg? (← shiftLeft? 1#64 (w - 1))
  let greatest ← sub? (← shiftLeft? 1#64 (w - 1)) 1#64
  if value.slt least || greatest.slt value then
    return .error (.signedRange value.toInt w)
  else
    return .ok (((value.setWidth 32).setWidth w).setWidth 32)

/-- Unpacks the low `w` bits of a word, which are moved to the top and down again with their
sign. -/
def unpackSigned? (w : Nat) (bits : Word) : Option (BitVec 64) := do
  let raised ← shiftLeft? bits (32 - w)
  let lowered ← shiftRight? raised (32 - w)
  return lowered.signExtend 64

theorem shiftLeft?_one {k : Nat} (h : k < 63) :
    ∃ x, shiftLeft? 1#64 k = some x ∧ x.toInt = 2 ^ k := by
  refine ⟨1#64 <<< k, if_pos (by omega), ?_⟩
  change (BitVec.twoPow 64 k).toInt = 2 ^ k
  rw [BitVec.toInt_twoPow, if_neg (by omega), if_neg (by omega)]

theorem neg?_of_nonneg {x : BitVec 64} (h : 0 ≤ x.toInt) :
    ∃ y, neg? x = some y ∧ y.toInt = -x.toInt := by
  have hfits : ¬ x.negOverflow = true := by
    simp only [BitVec.negOverflow, beq_iff_eq]
    omega
  exact ⟨-x, if_neg hfits, BitVec.toInt_neg_of_not_negOverflow hfits⟩

theorem sub?_one_of_nonneg {x : BitVec 64} (h : 0 ≤ x.toInt) :
    ∃ y, sub? x 1#64 = some y ∧ y.toInt = x.toInt - 1 := by
  have hlt : x.toInt < 2 ^ (64 - 1) := BitVec.toInt_lt
  have hone : (1#64).toInt = 1 := by decide
  have hfits : ¬ x.ssubOverflow 1#64 = true := by
    simp only [BitVec.ssubOverflow, hone, Bool.or_eq_true, decide_eq_true_eq]
    omega
  refine ⟨x - 1#64, if_neg hfits, ?_⟩
  rw [BitVec.toInt_sub_of_not_ssubOverflow hfits, hone]

/-- The two bounds of a field are found without overflow. -/
theorem exists_bounds {w : Nat} (hw : w ≤ 32) :
    ∃ top least greatest, shiftLeft? 1#64 (w - 1) = some top ∧ neg? top = some least ∧
      sub? top 1#64 = some greatest ∧ least.toInt = -2 ^ (w - 1) ∧
      greatest.toInt = 2 ^ (w - 1) - 1 := by
  obtain ⟨top, htop, hvalue⟩ := shiftLeft?_one (k := w - 1) (by omega)
  have hnonneg : 0 ≤ top.toInt := by
    rw [hvalue]
    positivity
  obtain ⟨least, hleast, hlow⟩ := neg?_of_nonneg hnonneg
  obtain ⟨greatest, hgreatest, hhigh⟩ := sub?_one_of_nonneg hnonneg
  rw [hvalue] at hlow hhigh
  exact ⟨top, least, greatest, htop, hleast, hgreatest, hlow, hhigh⟩

/-- The low bits of a number of 64 bits are its two's complement in fewer bits. -/
theorem setWidth_setWidth_eq_ofInt {w : Nat} (hw : w ≤ 32) (value : BitVec 64) :
    (value.setWidth 32).setWidth w = BitVec.ofInt w value.toInt := by
  rw [BitVec.setWidth_setWidth (by omega), ← BitVec.signExtend_eq_setWidth_of_le value (by omega)]
  rfl

/-- Packing in registers never overflows and gives the packed number. -/
theorem packSigned?_eq {w : Nat} (hpos : 0 < w) (hw : w ≤ 32) (value : BitVec 64) :
    packSigned? w value = some ((packSigned w value.toInt).map fun p => p.setWidth 32) := by
  obtain ⟨top, least, greatest, htop, hleast, hgreatest, hlow, hhigh⟩ := exists_bounds hw
  have hrun : packSigned? w value =
      if value.slt least || greatest.slt value then some (.error (.signedRange value.toInt w))
      else some (.ok (((value.setWidth 32).setWidth w).setWidth 32)) := by
    simp only [packSigned?, htop, hleast, hgreatest, Option.bind_eq_bind, Option.bind_some]
    rfl
  have hguard : (value.slt least || greatest.slt value) = true ↔
      ¬ (-2 ^ (w - 1) ≤ value.toInt ∧ value.toInt < 2 ^ (w - 1)) := by
    rw [Bool.or_eq_true, BitVec.slt_iff_toInt_lt, BitVec.slt_iff_toInt_lt, hlow, hhigh]
    omega
  rw [hrun]
  by_cases hrange : -2 ^ (w - 1) ≤ value.toInt ∧ value.toInt < 2 ^ (w - 1)
  · have hpacked : packSigned w value.toInt = .ok (BitVec.ofInt w value.toInt) :=
      packSigned_eq_ok_iff.mpr (BitVec.toInt_ofInt_eq_self hpos hrange.1 hrange.2)
    rw [if_neg (mt hguard.mp (not_not.mpr hrange)), hpacked, setWidth_setWidth_eq_ofInt hw]
    rfl
  · rw [if_pos (hguard.mpr hrange), packSigned_of_out_of_range hpos hrange]
    rfl

/-- Moving a field to the top and down again extends it by its sign. -/
theorem sshiftRight_shiftLeft {w s : Nat} (hpos : 0 < w) (hsum : w + s = 32) (bits : Word) :
    (bits <<< s).sshiftRight s = (bits.setWidth w).signExtend 32 := by
  have hmsb : (bits <<< s).msb = (bits.setWidth w).msb := by
    have hindex : 32 - 1 - s = w - 1 := by omega
    have hs : ¬ 31 < s := by omega
    rw [BitVec.msb_eq_getLsbD_last, BitVec.msb_eq_getLsbD_last, BitVec.getLsbD_shiftLeft,
      BitVec.getLsbD_setWidth, hindex]
    simp [hpos, hs]
  apply BitVec.eq_of_getLsbD_eq
  intro i hi
  rw [BitVec.getLsbD_sshiftRight, BitVec.getLsbD_signExtend, hmsb]
  by_cases hlow : i < w
  · have hsi : s + i < 32 := by omega
    simp [hi, hlow, hsi]
  · have hsi : ¬ s + i < 32 := by omega
    simp [hi, hlow, hsi]

/-- Unpacking in registers never overflows and gives the unpacked number. -/
theorem unpackSigned?_eq {w : Nat} (hpos : 0 < w) (hw : w ≤ 32) (bits : Word) :
    ∃ value, unpackSigned? w bits = some value ∧ value.toInt = unpackSigned w bits := by
  have hshift : 32 - w < 32 := by omega
  refine ⟨((bits <<< (32 - w)).sshiftRight (32 - w)).signExtend 64, ?_, ?_⟩
  · simp [unpackSigned?, shiftLeft?, shiftRight?, hshift]
  · rw [sshiftRight_shiftLeft hpos (by omega), BitVec.toInt_signExtend_of_le (by decide),
      BitVec.toInt_signExtend_of_le hw]
    rfl

end Checked

/-- The signed codec at every width of a field. A number is packed exactly if it is in the range of
the width, and refused for its range otherwise; its field is congruent to it and is unpacked to it.
Every word is unpacked to a number of the range, which depends on its low bits only and is packed to
them. The same results are found in registers of 64 and 32 bits, where no shift, negation or
subtraction overflows. -/
theorem signed_field_codec (w : FieldWidth) :
    (∀ value : Int,
      ((∃ p, packSigned w value = .ok p) ↔
        -2 ^ (w.val - 1) ≤ value ∧ value < 2 ^ (w.val - 1)) ∧
      (¬ (-2 ^ (w.val - 1) ≤ value ∧ value < 2 ^ (w.val - 1)) →
        packSigned w value = .error (.signedRange value w)) ∧
      ∀ p, packSigned w value = .ok p →
        (p.setWidth 32).toNat < 2 ^ w.val ∧
        ((p.setWidth 32).toNat : Int) ≡ value [ZMOD 2 ^ w.val] ∧
        unpackSigned w (p.setWidth 32) = value) ∧
    (∀ bits : Word,
      -2 ^ (w.val - 1) ≤ unpackSigned w bits ∧ unpackSigned w bits < 2 ^ (w.val - 1) ∧
      (∀ bits' : Word, bits'.toNat % 2 ^ w.val = bits.toNat % 2 ^ w.val →
        unpackSigned w bits' = unpackSigned w bits) ∧
      ∃ p, packSigned w (unpackSigned w bits) = .ok p ∧
        (p.setWidth 32).toNat = bits.toNat % 2 ^ w.val) ∧
    (∀ value : BitVec 64, Checked.packSigned? w value =
      some ((packSigned w value.toInt).map fun p => p.setWidth 32)) ∧
    ∀ bits : Word, ∃ value,
      Checked.unpackSigned? w bits = some value ∧ value.toInt = unpackSigned w bits := by
  obtain ⟨w, hpos, hw⟩ := w
  refine ⟨?_, ?_, Checked.packSigned?_eq hpos hw, Checked.unpackSigned?_eq hpos hw⟩
  · intro value
    refine ⟨exists_packSigned_iff hpos, packSigned_of_out_of_range hpos, ?_⟩
    intro p hp
    have hvalue := packSigned_eq_ok_iff.mp hp
    rw [toNat_setWidth_field hw, unpackSigned_setWidth hw]
    refine ⟨p.isLt, ?_, hvalue⟩
    rw [← hvalue]
    exact toNat_modEq_toInt p
  · intro bits
    refine ⟨BitVec.le_toInt _, BitVec.toInt_lt, fun bits' => unpackSigned_congr, _,
      packSigned_unpackSigned w bits, ?_⟩
    rw [toNat_setWidth_field hw, BitVec.toNat_setWidth]

end Rv32Asm

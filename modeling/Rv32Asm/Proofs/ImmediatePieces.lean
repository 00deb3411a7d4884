import Mathlib
import Rv32Asm.Proofs.Acceptance

/-!
# Immediates and their pieces

A layout keeps some bits of an immediate and leaves out the lowest ones, which are zero. Making an
immediate from a number and putting its pieces together again are both described through the bits
that are kept: their `meaning` is the number, and they are `cut` into the pieces. The pieces of an
immediate can be wider than their places, and can overlap then; the number that they stand for is
still the meaning of some bits, so it is the number of an immediate whose pieces fit.
-/

namespace Rv32Asm

/-! ### The makers of immediates -/

namespace Immediate

variable {value : Int} {imm : Immediate}

/-- The even numbers of `n + 1` bits are those whose lowest bit can be left out. -/
theorem exists_even_iff {n : Nat} {P : BitVec (n + 1) → Prop} :
    (∃ q, (value % 2 = 0 ∧ q.toInt = value) ∧ P q) ↔
      ∃ p : BitVec n, (p ++ 0#1).toInt = value ∧ P (p ++ 0#1) := by
  constructor
  · rintro ⟨q, ⟨heven, rfl⟩, hq⟩
    refine ⟨q.extractLsb' 1 n, ?_⟩
    rw [extractLsb'_append_zero q heven]
    exact ⟨rfl, hq⟩
  · rintro ⟨p, rfl, hp⟩
    exact ⟨p ++ 0#1, ⟨emod_two_append_zero p, rfl⟩, hp⟩

theorem packUpper_eq_ok_iff {word : Word} {p : BitVec 20} :
    packUpper word = .ok p ↔ word = p ++ 0#12 := by
  rw [← upper_eq_iff, packUpper, bind_eq_ok]
  simp only [checkAligned_eq_ok_iff, pure, Except.pure, Except.ok.injEq, exists_const]
  norm_cast

theorem ofIValue_eq_ok_iff :
    ofIValue value = .ok imm ↔ ∃ p : BitVec 12, p.toInt = value ∧ ofImm12 p = imm := by
  simp only [ofIValue, map_eq_ok, packSigned_eq_ok_iff]

theorem ofSValue_eq_ok_iff :
    ofSValue value = .ok imm ↔ ∃ p : BitVec 12, p.toInt = value ∧ ofStore p = imm := by
  simp only [ofSValue, map_eq_ok, packSigned_eq_ok_iff]

theorem ofBValue_eq_ok_iff :
    ofBValue value = .ok imm ↔
      ∃ p : BitVec 12, (p ++ 0#1).toInt = value ∧ ofBranch (p ++ 0#1) = imm := by
  simp only [ofBValue, map_eq_ok, packOffset_eq_ok_iff]
  exact exists_even_iff

theorem ofUValue_eq_ok_iff {word : Word} :
    ofUValue word = .ok imm ↔
      ∃ p : BitVec 20, ((p ++ 0#12).toNat : Int) = word.toNat ∧ ofUpper p = imm := by
  simp only [ofUValue, map_eq_ok, packUpper_eq_ok_iff, Nat.cast_inj, BitVec.toNat_inj,
    eq_comm (a := word)]

theorem ofJValue_eq_ok_iff :
    ofJValue value = .ok imm ↔
      ∃ p : BitVec 20, (p ++ 0#1).toInt = value ∧ ofJump (p ++ 0#1) = imm := by
  simp only [ofJValue, map_eq_ok, packOffset_eq_ok_iff]
  exact exists_even_iff

end Immediate

/-! ### Layouts -/

/-- The five layouts of an immediate. -/
inductive Layout
  | i | s | b | u | j
  deriving DecidableEq

/-- The layout that the pieces belong to. -/
def Immediate.layout : Immediate → Layout
  | i .. => .i
  | s .. => .s
  | b .. => .b
  | u .. => .u
  | j .. => .j

/-- No piece is wider than its place in an instruction. -/
def Immediate.FitsPlaces : Immediate → Prop
  | i imm11_0 => imm11_0.toNat < 2 ^ 12
  | s imm11_5 imm4_0 => imm11_5.toNat < 2 ^ 7 ∧ imm4_0.toNat < 2 ^ 5
  | b imm12 imm10_5 imm4_1 imm11 =>
    imm12.toNat < 2 ^ 1 ∧ imm10_5.toNat < 2 ^ 6 ∧ imm4_1.toNat < 2 ^ 4 ∧ imm11.toNat < 2 ^ 1
  | u imm31_12 => imm31_12.toNat < 2 ^ 20
  | j imm20 imm10_1 imm11 imm19_12 =>
    imm20.toNat < 2 ^ 1 ∧ imm10_1.toNat < 2 ^ 10 ∧ imm11.toNat < 2 ^ 1 ∧ imm19_12.toNat < 2 ^ 8

namespace Layout

/-- The format of the instructions whose immediate has the layout. -/
def format : Layout → Format
  | i => .i
  | s => .s
  | b => .b
  | u => .u
  | j => .j

/-- What an immediate of the layout is made from: a word for an upper immediate, a number
otherwise. -/
def Argument : Layout → Type
  | u => Word
  | i | s | b | j => Int

/-- What an immediate is made from, as a number. -/
def number : (k : Layout) → k.Argument → Int
  | u, word => BitVec.toNat word
  | i, value | s, value | b, value | j, value => value

/-- The immediate that is made from a number. -/
def make : (k : Layout) → k.Argument → Except FieldError Immediate
  | i, value => Immediate.ofIValue value
  | s, value => Immediate.ofSValue value
  | b, value => Immediate.ofBValue value
  | u, word => Immediate.ofUValue word
  | j, value => Immediate.ofJValue value

/-! ### The bits that are kept -/

/-- How many bits of an immediate are kept. -/
def size : Layout → Nat
  | i | s | b => 12
  | u | j => 20

/-- The number that the kept bits stand for. -/
def meaning : (k : Layout) → BitVec k.size → Int
  | i, p | s, p => p.toInt
  | b, p | j, p => (p ++ 0#1).toInt
  | u, p => (p ++ 0#12).toNat

/-- The kept bits, cut into pieces. -/
def cut : (k : Layout) → BitVec k.size → Immediate
  | i, p => .ofImm12 p
  | s, p => .ofStore p
  | b, p => .ofBranch (p ++ 0#1)
  | u, p => .ofUpper p
  | j, p => .ofJump (p ++ 0#1)

theorem layout_cut (k : Layout) (p : BitVec k.size) : (k.cut p).layout = k := by
  cases k <;> rfl

/-- The pieces that bits are cut into stand for the number that the bits stand for. -/
theorem value_cut (k : Layout) (p : BitVec k.size) : (k.cut p).value = k.meaning p := by
  cases k with
  | i => exact Immediate.value_ofImm12 p
  | s => exact Immediate.value_ofStore p
  | b => exact Immediate.value_ofBranch _ (emod_two_append_zero p)
  | u => exact Immediate.value_ofUpper p
  | j => exact Immediate.value_ofJump _ (emod_two_append_zero p)

theorem toNat_setWidth_lt {n w : Nat} (p : BitVec n) : (p.setWidth w).toNat < 2 ^ n := by
  rw [BitVec.toNat_setWidth]
  exact Nat.lt_of_le_of_lt (Nat.mod_le _ _) p.isLt

theorem fitsPlaces_cut (k : Layout) (p : BitVec k.size) : (k.cut p).FitsPlaces := by
  cases k with
  | i => exact toNat_setWidth_lt (n := 12) p
  | s => exact ⟨toNat_setWidth_lt _, toNat_setWidth_lt _⟩
  | b =>
    exact ⟨toNat_setWidth_lt _, toNat_setWidth_lt _, toNat_setWidth_lt _, toNat_setWidth_lt _⟩
  | u => exact toNat_setWidth_lt (n := 20) p
  | j =>
    exact ⟨toNat_setWidth_lt _, toNat_setWidth_lt _, toNat_setWidth_lt _, toNat_setWidth_lt _⟩

/-! ### Making an immediate -/

/-- The immediate made from a number is cut from the bits that stand for the number, and there is
none without such bits. -/
theorem make_eq_ok_iff {k : Layout} {v : k.Argument} {imm : Immediate} :
    k.make v = .ok imm ↔ ∃ p, k.meaning p = k.number v ∧ k.cut p = imm := by
  cases k with
  | i => exact Immediate.ofIValue_eq_ok_iff
  | s => exact Immediate.ofSValue_eq_ok_iff
  | b => exact Immediate.ofBValue_eq_ok_iff
  | u => exact Immediate.ofUValue_eq_ok_iff
  | j => exact Immediate.ofJValue_eq_ok_iff

/-- The numbers that the kept bits can stand for. -/
theorem exists_meaning_iff {k : Layout} {value : Int} :
    (∃ p, k.meaning p = value) ↔ k.format.Admits value := by
  cases k with
  | i => exact Format.admits_i_iff.symm
  | s => exact Format.admits_i_iff.symm
  | b => exact Format.admits_b_iff.symm
  | u => exact Format.admits_u_iff.symm
  | j => exact Format.admits_j_iff.symm

/-- An offset that is odd is refused for that, whether or not it is in range. -/
theorem make_of_odd {k : Layout} (hk : k = b ∨ k = j) {v : k.Argument}
    (hodd : k.number v % 2 ≠ 0) : k.make v = .error (.misaligned (k.number v) 2) := by
  rcases hk with rfl | rfl
  · exact map_eq_error.mpr (packOffset_of_odd hodd)
  · exact map_eq_error.mpr (packOffset_of_odd hodd)

theorem exists_number_eq_meaning {k : Layout} (p : BitVec k.size) :
    ∃ v : k.Argument, k.number v = k.meaning p := by
  cases k with
  | u => exact ⟨(p ++ 0#12 : Word), rfl⟩
  | _ => exact ⟨_, rfl⟩

end Layout

/-! ### Putting pieces together -/

namespace Immediate

theorem setWidth_setWidth_of_lt {n w : Nat} {x : BitVec n} (h : x.toNat < 2 ^ w) :
    (x.setWidth w).setWidth n = x := by
  apply BitVec.eq_of_toNat_eq
  rw [BitVec.toNat_setWidth, BitVec.toNat_setWidth, Nat.mod_eq_of_lt h, Nat.mod_eq_of_lt x.isLt]

/-- Pieces that fit their places are cut from bits. -/
theorem exists_cut_of_fitsPlaces {imm : Immediate} (h : imm.FitsPlaces) :
    ∃ p, imm.layout.cut p = imm := by
  cases imm with
  | i imm11_0 => exact ⟨imm11_0.setWidth 12, congrArg i (setWidth_setWidth_of_lt h)⟩
  | s imm11_5 imm4_0 =>
    have hcut : ofStore (imm11_5.setWidth 7 ++ imm4_0.setWidth 5) = s imm11_5 imm4_0 := by
      simp (disch := decide) only [ofStore, BitVec.extractLsb'_append_eq_of_le,
        BitVec.extractLsb'_append_eq_of_add_le, Nat.reduceSub, BitVec.extractLsb'_eq_self]
      rw [setWidth_setWidth_of_lt h.1, setWidth_setWidth_of_lt h.2]
    exact ⟨_, hcut⟩
  | b imm12 imm10_5 imm4_1 imm11 =>
    obtain ⟨h12, h10, h4, h11⟩ := h
    have hcut : ofBranch (imm12.setWidth 1 ++ imm11.setWidth 1 ++ imm10_5.setWidth 6 ++
        imm4_1.setWidth 4 ++ 0#1) = b imm12 imm10_5 imm4_1 imm11 := by
      simp (disch := decide) only [ofBranch, BitVec.extractLsb'_append_eq_of_le,
        BitVec.extractLsb'_append_eq_of_add_le, Nat.reduceSub, BitVec.extractLsb'_eq_self]
      rw [setWidth_setWidth_of_lt h12, setWidth_setWidth_of_lt h10, setWidth_setWidth_of_lt h4,
        setWidth_setWidth_of_lt h11]
    exact ⟨_, hcut⟩
  | u imm31_12 => exact ⟨imm31_12.setWidth 20, congrArg u (setWidth_setWidth_of_lt h)⟩
  | j imm20 imm10_1 imm11 imm19_12 =>
    obtain ⟨h20, h10, h11, h19⟩ := h
    have hcut : ofJump (imm20.setWidth 1 ++ imm19_12.setWidth 8 ++ imm11.setWidth 1 ++
        imm10_1.setWidth 10 ++ 0#1) = j imm20 imm10_1 imm11 imm19_12 := by
      simp (disch := decide) only [ofJump, BitVec.extractLsb'_append_eq_of_le,
        BitVec.extractLsb'_append_eq_of_add_le, Nat.reduceSub, BitVec.extractLsb'_eq_self]
      rw [setWidth_setWidth_of_lt h20, setWidth_setWidth_of_lt h10, setWidth_setWidth_of_lt h11,
        setWidth_setWidth_of_lt h19]
    exact ⟨_, hcut⟩

/-- A field whose lowest bit is not set stands for the number of a field without that bit. -/
theorem exists_append_zero_eq {n : Nat} (hn : n < 32) {bits : Word} (h : bits[0] = false) :
    ∃ p : BitVec n, (p ++ 0#1).toInt = unpackSigned (n + 1) bits := by
  have hlow : bits.extractLsb' 0 1 = 0#1 := by
    ext k hk
    obtain rfl : k = 0 := by omega
    simp [h]
  have hbits : bits.extractLsb' 1 n ++ 0#1 = bits.setWidth (n + 1) := by
    rw [← hlow, BitVec.extractLsb'_append_extractLsb'_eq_extractLsb' (by decide)]
    exact (BitVec.setWidth_eq_extractLsb' hn).symm
  refine ⟨bits.extractLsb' 1 n, ?_⟩
  rw [hbits]
  rfl

/-- The pieces stand for the meaning of some bits, however wide they are: what exceeds the field is
dropped, and what overlaps is joined. -/
theorem exists_meaning_eq_value (imm : Immediate) : ∃ p, imm.layout.meaning p = imm.value := by
  cases imm with
  | i imm11_0 => exact ⟨_, rfl⟩
  | s imm11_5 imm4_0 => exact ⟨_, rfl⟩
  | b imm12 imm10_5 imm4_1 imm11 =>
    exact exists_append_zero_eq (n := 12) (by decide) (by simp)
  | u imm31_12 =>
    have hshift : imm31_12.setWidth 20 ++ 0#12 = imm31_12 <<< 12 := by
      rw [BitVec.shiftLeft_eq_concat_of_lt (by decide), BitVec.setWidth_eq_extractLsb' (by decide)]
      rfl
    exact ⟨imm31_12.setWidth 20, congrArg (fun w : Word => (w.toNat : Int)) hshift⟩
  | j imm20 imm10_1 imm11 imm19_12 =>
    exact exists_append_zero_eq (n := 20) (by decide) (by simp)

/-- Making an immediate and putting its pieces together are inverse to each other. An immediate is
made from exactly the numbers that its format admits, an odd offset being refused as such whether or
not it is in range; its pieces fit their places and stand for the number. Pieces of any width stand
for a number that an immediate is made from again: it stands for the same number, and it is the
same immediate exactly if the pieces fitted their places. -/
theorem make_value_inverse :
    (∀ (k : Layout) (v : k.Argument),
      ((∃ imm, k.make v = .ok imm) ↔ k.format.Admits (k.number v)) ∧
      (∀ imm, k.make v = .ok imm →
        imm.layout = k ∧ imm.FitsPlaces ∧ imm.value = k.number v) ∧
      (k = .b ∨ k = .j → k.number v % 2 ≠ 0 →
        k.make v = .error (.misaligned (k.number v) 2))) ∧
    ∀ imm : Immediate, ∃ (v : imm.layout.Argument) (imm' : Immediate),
      imm.layout.number v = imm.value ∧ imm.layout.make v = .ok imm' ∧
      imm'.value = imm.value ∧ (imm' = imm ↔ imm.FitsPlaces) := by
  constructor
  · intro k v
    refine ⟨?_, ?_, fun hk hodd => Layout.make_of_odd hk hodd⟩
    · rw [← Layout.exists_meaning_iff]
      constructor
      · rintro ⟨imm, himm⟩
        obtain ⟨p, hp, -⟩ := Layout.make_eq_ok_iff.mp himm
        exact ⟨p, hp⟩
      · rintro ⟨p, hp⟩
        exact ⟨_, Layout.make_eq_ok_iff.mpr ⟨p, hp, rfl⟩⟩
    · intro imm himm
      obtain ⟨p, hp, rfl⟩ := Layout.make_eq_ok_iff.mp himm
      exact ⟨k.layout_cut p, k.fitsPlaces_cut p, (k.value_cut p).trans hp⟩
  · intro imm
    obtain ⟨p, hp⟩ := imm.exists_meaning_eq_value
    obtain ⟨v, hv⟩ := Layout.exists_number_eq_meaning p
    have hmade : imm.layout.make v = .ok (imm.layout.cut p) :=
      Layout.make_eq_ok_iff.mpr ⟨p, hv.symm, rfl⟩
    refine ⟨v, _, hv.trans hp, hmade, (imm.layout.value_cut p).trans hp, ?_⟩
    constructor
    · intro heq
      rw [← heq]
      exact imm.layout.fitsPlaces_cut p
    · intro hfits
      -- pieces that fit are cut from bits with the same meaning, so the same immediate is made
      obtain ⟨q, hq⟩ := exists_cut_of_fitsPlaces hfits
      have hmeaning : imm.layout.meaning q = imm.layout.number v := by
        rw [← Layout.value_cut, hq, hv, hp]
      have hsame := hmade.symm.trans (Layout.make_eq_ok_iff.mpr ⟨q, hmeaning, hq⟩)
      exact Except.ok.inj hsame

end Immediate

end Rv32Asm

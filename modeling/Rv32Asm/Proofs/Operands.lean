import Mathlib
import Rv32Asm.Disassembly
import Rv32Asm.Proofs.Field
import Rv32Asm.Proofs.MachineWord

/-!
# Instructions from operands

Which operands make an instruction, and which instruction they make. The offset of a branch or a
jump is read back from the pieces of the immediate as the number that was given.
-/

namespace Rv32Asm

theorem Reg.ofNat_eq_ok_iff {n : Nat} {r : Reg} : Reg.ofNat n = .ok r ↔ r.toNat = n :=
  packUnsigned_eq_ok_iff

/-! ### Offsets from their pieces -/

theorem setWidth_place_zero {n : Nat} (x : BitVec n) (h : n ≤ 32) : (place x 0).setWidth n = x := by
  unfold place
  rw [BitVec.shiftLeft_zero, BitVec.setWidth_setWidth (by omega), BitVec.setWidth_eq]

theorem unpackSigned_place_zero {n : Nat} (x : BitVec n) (h : n ≤ 32) :
    unpackSigned n (place x 0) = x.toInt := by
  unfold unpackSigned
  rw [setWidth_place_zero x h]

theorem place_zero_bits (n lsb : Nat) : place (0#n) lsb = 0 := by
  unfold place
  simp

/-- The lowest bit of the two's complement of an even number. -/
theorem extractLsb'_of_even {w : Nat} (hw : 0 < w) (p : BitVec w) (heven : p.toInt % 2 = 0) :
    p.extractLsb' 0 1 = 0#1 := by
  apply BitVec.eq_of_toNat_eq
  have h : ((p.extractLsb' 0 1).toNat : Int) = p.toInt / 2 ^ 0 % 2 ^ 1 :=
    toNat_extractLsb'_eq p (by omega)
  rw [pow_zero, Int.ediv_one, pow_one, heven] at h
  exact_mod_cast h

theorem emod_two_append_zero {n : Nat} (p : BitVec n) : (p ++ 0#1).toInt % 2 = 0 := by
  have h := toNat_extractLsb'_eq (p ++ 0#1) (show 0 + 1 ≤ n + 1 by omega)
  rw [BitVec.extractLsb'_append_eq_right, pow_zero, Int.ediv_one, pow_one] at h
  exact h.symm

namespace Immediate

theorem value_ofImm12 (p : BitVec 12) : (ofImm12 p).value = p.toInt := by
  have hvalue : (ofImm12 p).value = unpackSigned 12 (place p 0) := by
    simp (disch := decide) only [ofImm12, value, place, BitVec.setWidth_setWidth,
      BitVec.shiftLeft_zero]
  rw [hvalue, unpackSigned_place_zero p (by decide)]

theorem value_ofStore (p : BitVec 12) : (ofStore p).value = p.toInt := by
  have hp : p = p.extractLsb' 5 7 ++ p.extractLsb' 0 5 := by
    rw [BitVec.extractLsb'_append_extractLsb'_eq_extractLsb' (by decide)]
    exact BitVec.extractLsb'_eq_self.symm
  have hplaced : place p 0 = place (p.extractLsb' 5 7) 5 ||| place (p.extractLsb' 0 5) 0 := by
    conv_lhs => rw [hp]
    rw [place_append]
  have hvalue : (ofStore p).value = unpackSigned 12 (place p 0) := by
    rw [hplaced]
    simp (disch := decide) only [ofStore, value, place, BitVec.setWidth_setWidth,
      BitVec.shiftLeft_zero]
  rw [hvalue, unpackSigned_place_zero p (by decide)]

theorem value_ofUpper (p : BitVec 20) : (ofUpper p).value = (p ++ 0#12).toNat := by
  have hplaced : p ++ 0#12 = place p 12 := by
    rw [← place_zero (p ++ 0#12), place_append, place_zero_bits]
    exact BitVec.or_zero
  rw [hplaced]
  simp only [ofUpper, value, place]

theorem value_ofBranch (p : BitVec 13) (heven : p.toInt % 2 = 0) :
    (ofBranch p).value = p.toInt := by
  have hp : p = p.extractLsb' 12 1 ++ p.extractLsb' 11 1 ++ p.extractLsb' 5 6
      ++ p.extractLsb' 1 4 ++ 0#1 := by
    rw [← extractLsb'_of_even (by decide) p heven]
    simp (disch := decide) only [BitVec.extractLsb'_append_extractLsb'_eq_extractLsb']
    exact BitVec.extractLsb'_eq_self.symm
  have hplaced : place p 0 = place (p.extractLsb' 12 1) 12 ||| place (p.extractLsb' 11 1) 11
      ||| place (p.extractLsb' 5 6) 5 ||| place (p.extractLsb' 1 4) 1 := by
    conv_lhs => rw [hp]
    simp only [place_append]
    simp only [place_zero_bits, Nat.reduceAdd, BitVec.ofNat_eq_ofNat, BitVec.or_zero]
  have hvalue : (ofBranch p).value = unpackSigned 13 (place p 0) := by
    rw [hplaced]
    simp (disch := decide) only [ofBranch, value, place, BitVec.setWidth_setWidth]
  rw [hvalue, unpackSigned_place_zero p (by decide)]

theorem value_ofJump (p : BitVec 21) (heven : p.toInt % 2 = 0) : (ofJump p).value = p.toInt := by
  have hp : p = p.extractLsb' 20 1 ++ p.extractLsb' 12 8 ++ p.extractLsb' 11 1
      ++ p.extractLsb' 1 10 ++ 0#1 := by
    rw [← extractLsb'_of_even (by decide) p heven]
    simp (disch := decide) only [BitVec.extractLsb'_append_extractLsb'_eq_extractLsb']
    exact BitVec.extractLsb'_eq_self.symm
  have hplaced : place p 0 = place (p.extractLsb' 20 1) 20 ||| place (p.extractLsb' 12 8) 12
      ||| place (p.extractLsb' 11 1) 11 ||| place (p.extractLsb' 1 10) 1 := by
    conv_lhs => rw [hp]
    simp only [place_append]
    simp only [place_zero_bits, Nat.reduceAdd, BitVec.ofNat_eq_ofNat, BitVec.or_zero]
  have hvalue : (ofJump p).value = unpackSigned 21 (place p 0) := by
    rw [hplaced]
    simp (disch := decide) only [ofJump, value, place, BitVec.setWidth_setWidth]
  rw [hvalue, unpackSigned_place_zero p (by decide)]

end Immediate

/-- An offset without its lowest bit, which is zero, and with that bit put back. -/
theorem extractLsb'_append_zero {n : Nat} (p : BitVec (n + 1)) (heven : p.toInt % 2 = 0) :
    p.extractLsb' 1 n ++ 0#1 = p := by
  rw [← extractLsb'_of_even (by omega) p heven,
    BitVec.extractLsb'_append_extractLsb'_eq_extractLsb' (by decide)]
  exact BitVec.extractLsb'_eq_self

/-- The even numbers of `n + 1` bits, packed without their lowest bit. -/
theorem exists_packed_offset_iff {n : Nat} {offset : Int} {p : BitVec n} :
    (∃ q : BitVec (n + 1), (offset % 2 = 0 ∧ q.toInt = offset) ∧ q.extractLsb' 1 n = p) ↔
      (p ++ 0#1).toInt = offset := by
  constructor
  · intro h
    obtain ⟨q, ⟨heven, rfl⟩, rfl⟩ := h
    rw [extractLsb'_append_zero q heven]
  · intro h
    subst h
    refine ⟨p ++ 0#1, ⟨emod_two_append_zero p, rfl⟩, ?_⟩
    rw [BitVec.extractLsb'_append_eq_of_le (by decide)]
    exact BitVec.extractLsb'_eq_self

/-- The words whose lower twelve bits are zero, given by the upper twenty. -/
theorem upper_eq_iff {word : Word} {p : BitVec 20} :
    word.toNat % 4096 = 0 ∧ word.extractLsb' 12 20 = p ↔ word = p ++ 0#12 := by
  constructor
  · intro h
    obtain ⟨haligned, rfl⟩ := h
    have hlow : 0#12 = word.extractLsb' 0 12 := by
      apply BitVec.eq_of_toNat_eq
      rw [BitVec.extractLsb'_toNat, Nat.shiftRight_zero]
      exact haligned.symm
    rw [hlow, BitVec.extractLsb'_append_extractLsb'_eq_extractLsb' (by decide)]
    exact BitVec.extractLsb'_eq_self.symm
  · intro h
    subst h
    constructor
    · rw [toNat_append_eq]
      simp
    · rw [BitVec.extractLsb'_append_eq_of_le (by decide)]
      exact BitVec.extractLsb'_eq_self

/-! ### Immediates of instructions -/

namespace Instruction

@[simp] theorem imm?_r (funct3 : BitVec 3) (funct7 : BitVec 7) (rd rs1 rs2 : Reg) :
    (r funct3 funct7 rd rs1 rs2).imm? = none := rfl

@[simp] theorem imm?_i (op : ImmOpcode) (funct3 : BitVec 3) (rd rs1 : Reg) (imm : BitVec 12) :
    (i op funct3 rd rs1 imm).imm? = some imm.toInt := by
  rw [imm?, immediate?, Option.map_some, Immediate.value_ofImm12]

@[simp] theorem imm?_s (funct3 : BitVec 3) (rs1 rs2 : Reg) (imm : BitVec 12) :
    (s funct3 rs1 rs2 imm).imm? = some imm.toInt := by
  rw [imm?, immediate?, Option.map_some, Immediate.value_ofStore]

@[simp] theorem imm?_b (funct3 : BitVec 3) (rs1 rs2 : Reg) (offset : BitVec 12) :
    (b funct3 rs1 rs2 offset).imm? = some (offset ++ 0#1).toInt := by
  rw [imm?, immediate?, Option.map_some, Immediate.value_ofBranch _ (emod_two_append_zero offset)]

@[simp] theorem imm?_u (op : UpperOp) (rd : Reg) (imm : BitVec 20) :
    (u op rd imm).imm? = some ((imm ++ 0#12).toNat : Int) := by
  rw [imm?, immediate?, Option.map_some, Immediate.value_ofUpper]

@[simp] theorem imm?_j (rd : Reg) (offset : BitVec 20) :
    (j rd offset).imm? = some (offset ++ 0#1).toInt := by
  rw [imm?, immediate?, Option.map_some, Immediate.value_ofJump _ (emod_two_append_zero offset)]

end Instruction

/-! ### What the makers accept -/

namespace Instruction

theorem ofImm_eq_ok_iff {op : ImmOp} {rd rs1 : Reg} {value : Int} {inst : Instruction} :
    ofImm op rd rs1 value = .ok inst ↔
      ∃ p : BitVec 12, p.toInt = value ∧ i op.opcode op.funct3 rd rs1 p = inst := by
  simp only [ofImm, map_eq_ok, packSigned_eq_ok_iff]

theorem ofShift_eq_ok_iff {op : ShiftOp} {rd rs1 : Reg} {shamt : Nat} {inst : Instruction} :
    ofShift op rd rs1 shamt = .ok inst ↔
      ∃ p : BitVec 5, p.toNat = shamt ∧ i .opImm op.funct3 rd rs1 (op.funct7 ++ p) = inst := by
  simp only [ofShift, bind_eq_ok, packUnsigned_eq_ok_iff, pure, Except.pure, Except.ok.injEq]

theorem ofStore_eq_ok_iff {op : StoreOp} {rs1 rs2 : Reg} {value : Int} {inst : Instruction} :
    ofStore op rs1 rs2 value = .ok inst ↔
      ∃ p : BitVec 12, p.toInt = value ∧ s op.funct3 rs1 rs2 p = inst := by
  simp only [ofStore, map_eq_ok, packSigned_eq_ok_iff]

theorem ofBranch_eq_ok_iff {op : BranchOp} {rs1 rs2 : Reg} {offset : Int} {inst : Instruction} :
    ofBranch op rs1 rs2 offset = .ok inst ↔
      ∃ p : BitVec 13, (offset % 2 = 0 ∧ p.toInt = offset) ∧
        b op.funct3 rs1 rs2 (p.extractLsb' 1 12) = inst := by
  simp only [ofBranch, bind_eq_ok, packOffset_eq_ok_iff, pure, Except.pure, Except.ok.injEq]

theorem ofUpper_eq_ok_iff {op : UpperOp} {rd : Reg} {word : Word} {inst : Instruction} :
    ofUpper op rd word = .ok inst ↔
      word.toNat % 4096 = 0 ∧ u op rd (word.extractLsb' 12 20) = inst := by
  simp only [ofUpper, map_eq_ok, Immediate.packUpper, bind_eq_ok, checkAligned_eq_ok_iff, pure,
    Except.pure, Except.ok.injEq]
  constructor
  · rintro ⟨p, ⟨_, haligned, rfl⟩, rfl⟩
    exact ⟨by exact_mod_cast haligned, rfl⟩
  · rintro ⟨haligned, rfl⟩
    exact ⟨_, ⟨(), by exact_mod_cast haligned, rfl⟩, rfl⟩

theorem ofJump_eq_ok_iff {rd : Reg} {offset : Int} {inst : Instruction} :
    ofJump rd offset = .ok inst ↔
      ∃ p : BitVec 21, (offset % 2 = 0 ∧ p.toInt = offset) ∧ j rd (p.extractLsb' 1 20) = inst := by
  simp only [ofJump, bind_eq_ok, packOffset_eq_ok_iff, pure, Except.pure, Except.ok.injEq]

/-- Branches reach over the even offsets of 13 bits. -/
theorem exists_ofBranch_iff {op : BranchOp} {rs1 rs2 : Reg} {offset : Int} :
    (∃ inst, ofBranch op rs1 rs2 offset = .ok inst) ↔
      offset % 2 = 0 ∧ -2 ^ 12 ≤ offset ∧ offset < 2 ^ 12 := by
  rw [← exists_toInt_eq_iff (w := 13) (by decide)]
  constructor
  · rintro ⟨inst, h⟩
    obtain ⟨p, ⟨heven, hp⟩, -⟩ := ofBranch_eq_ok_iff.mp h
    exact ⟨heven, p, hp⟩
  · rintro ⟨heven, p, hp⟩
    exact ⟨_, ofBranch_eq_ok_iff.mpr ⟨p, ⟨heven, hp⟩, rfl⟩⟩

/-- Jumps reach over the even offsets of 21 bits. -/
theorem exists_ofJump_iff {rd : Reg} {offset : Int} :
    (∃ inst, ofJump rd offset = .ok inst) ↔
      offset % 2 = 0 ∧ -2 ^ 20 ≤ offset ∧ offset < 2 ^ 20 := by
  rw [← exists_toInt_eq_iff (w := 21) (by decide)]
  constructor
  · rintro ⟨inst, h⟩
    obtain ⟨p, ⟨heven, hp⟩, -⟩ := ofJump_eq_ok_iff.mp h
    exact ⟨heven, p, hp⟩
  · rintro ⟨heven, p, hp⟩
    exact ⟨_, ofJump_eq_ok_iff.mpr ⟨p, ⟨heven, hp⟩, rfl⟩⟩

theorem ofBranch_of_packOffset {op : BranchOp} {rs1 rs2 : Reg} {offset : Int} {e : FieldError}
    (h : packOffset 13 offset = .error e) : ofBranch op rs1 rs2 offset = .error e := by
  unfold ofBranch
  rw [h]
  rfl

theorem ofJump_of_packOffset {rd : Reg} {offset : Int} {e : FieldError}
    (h : packOffset 21 offset = .error e) : ofJump rd offset = .error e := by
  unfold ofJump
  rw [h]
  rfl

/-! ### What the makers make -/

theorem imm?_of_ofBranch {op : BranchOp} {rs1 rs2 : Reg} {offset : Int} {inst : Instruction}
    (h : ofBranch op rs1 rs2 offset = .ok inst) : inst.imm? = some offset := by
  obtain ⟨p, ⟨heven, rfl⟩, rfl⟩ := ofBranch_eq_ok_iff.mp h
  rw [imm?_b, extractLsb'_append_zero p heven]

theorem imm?_of_ofJump {rd : Reg} {offset : Int} {inst : Instruction}
    (h : ofJump rd offset = .ok inst) : inst.imm? = some offset := by
  obtain ⟨p, ⟨heven, rfl⟩, rfl⟩ := ofJump_eq_ok_iff.mp h
  rw [imm?_j, extractLsb'_append_zero p heven]

theorem describe_eq_ok_iff {inst : Instruction} {m : Mnemonic} :
    inst.describe = .ok m ↔
      Mnemonic.lookup inst.opcode (inst.funct3?.map BitVec.toNat)
        (inst.effectiveFunct7?.map BitVec.toNat) = some m := by
  unfold describe
  split
  · next found hfound => simp [hfound]
  · next hnone => simp [hnone]

theorem describe_of_ofBranch {op : BranchOp} {rs1 rs2 : Reg} {offset : Int} {inst : Instruction}
    (h : ofBranch op rs1 rs2 offset = .ok inst) : inst.describe = .ok (.branch op) := by
  obtain ⟨p, -, rfl⟩ := ofBranch_eq_ok_iff.mp h
  rw [describe_eq_ok_iff]
  cases op <;> rfl

theorem describe_of_ofJump {rd : Reg} {offset : Int} {inst : Instruction}
    (h : ofJump rd offset = .ok inst) : inst.describe = .ok .jal := by
  obtain ⟨p, -, rfl⟩ := ofJump_eq_ok_iff.mp h
  rw [describe_eq_ok_iff]
  rfl

end Instruction

end Rv32Asm

import Mathlib
import Rv32Asm.Isa.Encoding
import Rv32Asm.Proofs.Operands

/-!
# Machine words as numbers

The layout of the instruction set, written as sums of shifted numbers without any bit operation,
and the proof that every instruction made from a mnemonic and its operands is encoded as the number
that the layout gives for them.
-/

namespace Rv32Asm

/-! ### The layout -/

/-- The bits `hi` to `lo` of the two's complement of a number. -/
def bitsOf (value : Int) (hi lo : Nat) : Int := value / 2 ^ lo % 2 ^ (hi + 1 - lo)

/-- A mnemonic with the operands of its format. Operands are plain numbers that are not yet
checked. -/
inductive Construction
  | reg (op : RegOp) (rd rs1 rs2 : Nat)
  | imm (op : ImmOp) (rd rs1 : Nat) (imm : Int)
  | shift (op : ShiftOp) (rd rs1 shamt : Nat)
  | store (op : StoreOp) (rs1 rs2 : Nat) (imm : Int)
  | branch (op : BranchOp) (rs1 rs2 : Nat) (offset : Int)
  | upper (op : UpperOp) (rd : Nat) (imm : Word)
  | jal (rd : Nat) (offset : Int)

namespace Construction

def mnemonic : Construction → Mnemonic
  | reg op .. => .reg op
  | imm op .. => .imm op
  | shift op .. => .shift op
  | store op .. => .store op
  | branch op .. => .branch op
  | upper op .. => .upper op
  | jal .. => .jal

/-- The instruction, if the operands are admissible. -/
def instruction : Construction → Except FieldError Instruction
  | reg op rd rs1 rs2 => Instruction.reg op rd rs1 rs2
  | imm op rd rs1 value => Instruction.imm op rd rs1 value
  | shift op rd rs1 shamt => Instruction.shift op rd rs1 shamt
  | store op rs1 rs2 value => Instruction.store op rs1 rs2 value
  | branch op rs1 rs2 offset => Instruction.branch op rs1 rs2 offset
  | upper op rd value => Instruction.upper op rd value
  | jal rd offset => Instruction.jal rd offset

/-- The number that the layout gives for the mnemonic's codes and the operands. -/
def layout (c : Construction) : Int :=
  let opcode : Int := c.mnemonic.opcode.bits.toNat
  let funct3 : Int := (c.mnemonic.funct3?.map BitVec.toNat).getD 0
  let funct7 : Int := (c.mnemonic.funct7?.map BitVec.toNat).getD 0
  match c with
  | reg _ rd rs1 rs2 =>
    funct7 * 2 ^ 25 + rs2 * 2 ^ 20 + rs1 * 2 ^ 15 + funct3 * 2 ^ 12 + rd * 2 ^ 7 + opcode
  | imm _ rd rs1 value =>
    value % 2 ^ 12 * 2 ^ 20 + rs1 * 2 ^ 15 + funct3 * 2 ^ 12 + rd * 2 ^ 7 + opcode
  | shift _ rd rs1 shamt =>
    funct7 * 2 ^ 25 + shamt * 2 ^ 20 + rs1 * 2 ^ 15 + funct3 * 2 ^ 12 + rd * 2 ^ 7 + opcode
  | store _ rs1 rs2 value =>
    bitsOf value 11 5 * 2 ^ 25 + rs2 * 2 ^ 20 + rs1 * 2 ^ 15 + funct3 * 2 ^ 12
      + bitsOf value 4 0 * 2 ^ 7 + opcode
  | branch _ rs1 rs2 offset =>
    bitsOf offset 12 12 * 2 ^ 31 + bitsOf offset 10 5 * 2 ^ 25 + rs2 * 2 ^ 20 + rs1 * 2 ^ 15
      + funct3 * 2 ^ 12 + bitsOf offset 4 1 * 2 ^ 8 + bitsOf offset 11 11 * 2 ^ 7 + opcode
  | upper _ rd value => value.toNat + rd * 2 ^ 7 + opcode
  | jal rd offset =>
    bitsOf offset 20 20 * 2 ^ 31 + bitsOf offset 10 1 * 2 ^ 21 + bitsOf offset 11 11 * 2 ^ 20
      + bitsOf offset 19 12 * 2 ^ 12 + rd * 2 ^ 7 + opcode

end Construction

/-! ### Fields side by side -/

/-- The bits of a packed number are the bits of the number. -/
theorem toNat_slice {w start len hi : Nat} (p : BitVec w) (h : start + len ≤ w)
    (hhi : hi + 1 - start = len) :
    ((p.extractLsb' start len).toNat : Int) = bitsOf p.toInt hi start := by
  rw [toNat_extractLsb'_eq p h, bitsOf, hhi]

theorem toNat_eq_emod {w : Nat} (p : BitVec w) : (p.toNat : Int) = p.toInt % 2 ^ w := by
  have h := toNat_extractLsb'_eq p (Nat.le_of_eq (Nat.zero_add w))
  rw [BitVec.extractLsb'_eq_self, pow_zero, Int.ediv_one] at h
  exact h

namespace Instruction

theorem toNat_encode_ofReg (op : RegOp) (rd rs1 rs2 : Reg) :
    ((ofReg op rd rs1 rs2).encode.toNat : Int) =
      (Construction.reg op rd.toNat rs1.toNat rs2.toNat).layout := by
  simp only [ofReg, encode, toNat_append_eq]
  simp only [Construction.layout, Construction.mnemonic, Mnemonic.opcode, Mnemonic.funct3?,
    Mnemonic.funct7?, Option.map_some, Option.getD_some]
  push_cast
  ring

theorem toNat_encode_i (op : ImmOp) (rd rs1 : Reg) (imm : BitVec 12) :
    ((i op.opcode op.funct3 rd rs1 imm).encode.toNat : Int) =
      (Construction.imm op rd.toNat rs1.toNat imm.toInt).layout := by
  simp only [encode, toNat_append_eq]
  simp only [Construction.layout, Construction.mnemonic, Mnemonic.opcode, Mnemonic.funct3?,
    Option.map_some, Option.getD_some]
  rw [← toNat_eq_emod imm]
  push_cast
  ring

theorem toNat_encode_shift (op : ShiftOp) (rd rs1 : Reg) (shamt : BitVec 5) :
    ((i .opImm op.funct3 rd rs1 (op.funct7 ++ shamt)).encode.toNat : Int) =
      (Construction.shift op rd.toNat rs1.toNat shamt.toNat).layout := by
  simp only [encode, toNat_append_eq]
  simp only [Construction.layout, Construction.mnemonic, Mnemonic.opcode, Mnemonic.funct3?,
    Mnemonic.funct7?, ImmOpcode.opcode, Option.map_some, Option.getD_some]
  push_cast
  ring

theorem toNat_encode_s (op : StoreOp) (rs1 rs2 : Reg) (imm : BitVec 12) :
    ((s op.funct3 rs1 rs2 imm).encode.toNat : Int) =
      (Construction.store op rs1.toNat rs2.toNat imm.toInt).layout := by
  simp only [encode, toNat_append_eq]
  simp only [Construction.layout, Construction.mnemonic, Mnemonic.opcode, Mnemonic.funct3?,
    Option.map_some, Option.getD_some]
  rw [← toNat_slice imm (show 5 + 7 ≤ 12 by decide) rfl,
    ← toNat_slice imm (show 0 + 5 ≤ 12 by decide) rfl]
  push_cast
  ring

theorem toNat_encode_b (op : BranchOp) (rs1 rs2 : Reg) (p : BitVec 13) :
    ((b op.funct3 rs1 rs2 (p.extractLsb' 1 12)).encode.toNat : Int) =
      (Construction.branch op rs1.toNat rs2.toNat p.toInt).layout := by
  simp (disch := decide) only [encode, toNat_append_eq, extractLsb'_extractLsb']
  simp only [Nat.reduceAdd, Construction.layout, Construction.mnemonic, Mnemonic.opcode,
    Mnemonic.funct3?, Option.map_some, Option.getD_some]
  rw [← toNat_slice p (show 12 + 1 ≤ 13 by decide) rfl,
    ← toNat_slice p (show 5 + 6 ≤ 13 by decide) rfl,
    ← toNat_slice p (show 1 + 4 ≤ 13 by decide) rfl,
    ← toNat_slice p (show 11 + 1 ≤ 13 by decide) rfl]
  push_cast
  ring

theorem toNat_encode_u (op : UpperOp) (rd : Reg) (word : Word) (h : word.toNat % 4096 = 0) :
    ((u op rd (word.extractLsb' 12 20)).encode.toNat : Int) =
      (Construction.upper op rd.toNat word).layout := by
  have hword := word.isLt
  simp only [encode, toNat_append_eq, BitVec.extractLsb'_toNat, Nat.shiftRight_eq_div_pow]
  simp only [Construction.layout, Construction.mnemonic, Mnemonic.opcode]
  omega

theorem toNat_encode_j (rd : Reg) (p : BitVec 21) :
    ((j rd (p.extractLsb' 1 20)).encode.toNat : Int) =
      (Construction.jal rd.toNat p.toInt).layout := by
  simp (disch := decide) only [encode, toNat_append_eq, extractLsb'_extractLsb']
  simp only [Nat.reduceAdd, Construction.layout, Construction.mnemonic, Mnemonic.opcode]
  rw [← toNat_slice p (show 20 + 1 ≤ 21 by decide) rfl,
    ← toNat_slice p (show 1 + 10 ≤ 21 by decide) rfl,
    ← toNat_slice p (show 11 + 1 ≤ 21 by decide) rfl,
    ← toNat_slice p (show 12 + 8 ≤ 21 by decide) rfl]
  push_cast
  ring

/-! ### Instructions from operands -/

/-- Every instruction made from a mnemonic and operands that it accepts is encoded as the number
that the layout gives for them. -/
theorem toNat_encode_eq_layout (c : Construction) (inst : Instruction)
    (h : c.instruction = .ok inst) : (inst.encode.toNat : Int) = c.layout := by
  cases c with
  | reg op rd rs1 rs2 =>
    simp only [Construction.instruction, reg, bind_eq_ok, Reg.ofNat_eq_ok_iff] at h
    obtain ⟨_, rfl, _, rfl, _, rfl, hinst⟩ := h
    cases hinst
    exact toNat_encode_ofReg op _ _ _
  | imm op rd rs1 value =>
    simp only [Construction.instruction, imm, bind_eq_ok, Reg.ofNat_eq_ok_iff,
      ofImm_eq_ok_iff] at h
    obtain ⟨_, rfl, _, rfl, _, rfl, rfl⟩ := h
    exact toNat_encode_i op _ _ _
  | shift op rd rs1 shamt =>
    simp only [Construction.instruction, shift, bind_eq_ok, Reg.ofNat_eq_ok_iff,
      ofShift_eq_ok_iff] at h
    obtain ⟨_, rfl, _, rfl, _, rfl, rfl⟩ := h
    exact toNat_encode_shift op _ _ _
  | store op rs1 rs2 value =>
    simp only [Construction.instruction, store, bind_eq_ok, Reg.ofNat_eq_ok_iff,
      ofStore_eq_ok_iff] at h
    obtain ⟨_, rfl, _, rfl, _, rfl, rfl⟩ := h
    exact toNat_encode_s op _ _ _
  | branch op rs1 rs2 offset =>
    simp only [Construction.instruction, branch, bind_eq_ok, Reg.ofNat_eq_ok_iff,
      ofBranch_eq_ok_iff] at h
    obtain ⟨_, rfl, _, rfl, _, ⟨_, rfl⟩, rfl⟩ := h
    exact toNat_encode_b op _ _ _
  | upper op rd word =>
    simp only [Construction.instruction, upper, bind_eq_ok, Reg.ofNat_eq_ok_iff,
      ofUpper_eq_ok_iff] at h
    obtain ⟨_, rfl, haligned, rfl⟩ := h
    exact toNat_encode_u op _ word haligned
  | jal rd offset =>
    simp only [Construction.instruction, jal, bind_eq_ok, Reg.ofNat_eq_ok_iff,
      ofJump_eq_ok_iff] at h
    obtain ⟨_, rfl, _, ⟨_, rfl⟩, rfl⟩ := h
    exact toNat_encode_j _ _

theorem toNat_encode_bltu_backwards :
    (Construction.branch .bltu 11 12 (-0xedc)).instruction = .ok (.b 0b110 11 12 0x892) ∧
      ((b 0b110 11 12 0x892).encode.toNat : Int) =
        (Construction.branch .bltu 11 12 (-0xedc)).layout :=
  ⟨rfl, toNat_encode_eq_layout (.branch .bltu 11 12 (-0xedc)) _ rfl⟩

end Instruction

end Rv32Asm

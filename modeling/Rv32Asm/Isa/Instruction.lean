import Rv32Asm.Isa.Immediate
import Rv32Asm.Isa.Mnemonic

/-!
# Instructions

An instruction holds its fields at exactly the width that they have in the machine word, so every
value of the type is an instruction of the format named by its constructor. The function codes are
free: an instruction need not belong to any mnemonic.
-/

namespace Rv32Asm

/-- A register number. -/
abbrev Reg := BitVec 5

namespace Reg

/-- The register with that number, if there is one. -/
def ofNat (n : Nat) : Except FieldError Reg := packUnsigned 5 n

/-- The register's name: `x` and two decimal digits. -/
def name (r : Reg) : String := "x" ++ String.ofList (Text.fixedDigits 10 2 r.toNat)

end Reg

/-- An instruction by format. An offset is kept without its lowest bit, which is zero. -/
inductive Instruction
  | r (funct3 : BitVec 3) (funct7 : BitVec 7) (rd rs1 rs2 : Reg)
  | i (opcode : ImmOpcode) (funct3 : BitVec 3) (rd rs1 : Reg) (imm : BitVec 12)
  | s (funct3 : BitVec 3) (rs1 rs2 : Reg) (imm : BitVec 12)
  | b (funct3 : BitVec 3) (rs1 rs2 : Reg) (offset : BitVec 12)
  | u (op : UpperOp) (rd : Reg) (imm : BitVec 20)
  | j (rd : Reg) (offset : BitVec 20)
  deriving DecidableEq

namespace Instruction

/-! ### The fields -/

def opcode : Instruction → Opcode
  | r .. => .op
  | i opcode .. => opcode.opcode
  | s .. => .store
  | b .. => .branch
  | u op .. => op.opcode
  | j .. => .jal

def funct3? : Instruction → Option (BitVec 3)
  | r funct3 .. | i _ funct3 .. | s funct3 .. | b funct3 .. => some funct3
  | u .. | j .. => none

def funct7? : Instruction → Option (BitVec 7)
  | r _ funct7 .. => some funct7
  | _ => none

def rd? : Instruction → Option Reg
  | r _ _ rd .. | i _ _ rd .. | u _ rd _ | j rd _ => some rd
  | s .. | b .. => none

def rs1? : Instruction → Option Reg
  | r _ _ _ rs1 _ | i _ _ _ rs1 _ | s _ rs1 .. | b _ rs1 .. => some rs1
  | u .. | j .. => none

def rs2? : Instruction → Option Reg
  | r _ _ _ _ rs2 | s _ _ rs2 _ | b _ _ rs2 _ => some rs2
  | i .. | u .. | j .. => none

/-- The immediate in the pieces that the machine word holds. -/
def immediate? : Instruction → Option Immediate
  | r .. => none
  | i _ _ _ _ imm => some (.ofImm12 imm)
  | s _ _ _ imm => some (.ofStore imm)
  | b _ _ _ offset => some (.ofBranch (offset ++ 0#1))
  | u _ _ imm => some (.ofUpper imm)
  | j _ offset => some (.ofJump (offset ++ 0#1))

/-- The immediate as a number. -/
def imm? (inst : Instruction) : Option Int := inst.immediate?.map Immediate.value

def format (inst : Instruction) : Format :=
  .of inst.opcode (inst.funct3?.map BitVec.toNat)

/-- The amount of a shift by a constant: the lowest five bits of the immediate. -/
def shamt? (inst : Instruction) : Option (BitVec 5) :=
  match inst.format, inst with
  | .shift, i _ _ _ _ imm => some (imm.extractLsb' 0 5)
  | _, _ => none

/-- The `funct7` code, which a shift by a constant keeps in the upper seven bits of its
immediate. -/
def effectiveFunct7? (inst : Instruction) : Option (BitVec 7) :=
  match inst.format, inst with
  | .shift, i _ _ _ _ imm => some (imm.extractLsb' 5 7)
  | _, _ => inst.funct7?

/-- The fields that the instruction has. -/
def fields (inst : Instruction) : FieldSet :=
  .only inst.rd?.isSome .rd ∪ .only inst.rs1?.isSome .rs1 ∪ .only inst.rs2?.isSome .rs2
    ∪ .only inst.funct3?.isSome .funct3 ∪ .only inst.funct7?.isSome .funct7
    ∪ .only inst.immediate?.isSome .imm

/-! ### From a mnemonic and its operands -/

/-- A register operation. -/
def ofReg (op : RegOp) (rd rs1 rs2 : Reg) : Instruction :=
  r op.funct3 op.funct7 rd rs1 rs2

/-- An operation with a 12-bit immediate. -/
def ofImm (op : ImmOp) (rd rs1 : Reg) (imm : Int) : Except FieldError Instruction :=
  i op.opcode op.funct3 rd rs1 <$> packSigned 12 imm

/-- A shift by a constant. -/
def ofShift (op : ShiftOp) (rd rs1 : Reg) (shamt : Nat) : Except FieldError Instruction := do
  let amount ← packUnsigned 5 shamt
  return i .opImm op.funct3 rd rs1 (op.funct7 ++ amount)

/-- A store of `rs2` at an offset from `rs1`. -/
def ofStore (op : StoreOp) (rs1 rs2 : Reg) (imm : Int) : Except FieldError Instruction :=
  s op.funct3 rs1 rs2 <$> packSigned 12 imm

/-- A branch over an offset from its own address. -/
def ofBranch (op : BranchOp) (rs1 rs2 : Reg) (offset : Int) : Except FieldError Instruction := do
  let p ← packOffset 13 offset
  return b op.funct3 rs1 rs2 (p.extractLsb' 1 12)

/-- An operation on an upper immediate, given as the whole word. -/
def ofUpper (op : UpperOp) (rd : Reg) (imm : Word) : Except FieldError Instruction :=
  u op rd <$> Immediate.packUpper imm

/-- A jump over an offset from its own address. -/
def ofJump (rd : Reg) (offset : Int) : Except FieldError Instruction := do
  let p ← packOffset 21 offset
  return j rd (p.extractLsb' 1 20)

/-! ### From register numbers

Registers are checked in the order in which the operands are written, and all of them before the
immediate. -/

def reg (op : RegOp) (rd rs1 rs2 : Nat) : Except FieldError Instruction := do
  return ofReg op (← Reg.ofNat rd) (← Reg.ofNat rs1) (← Reg.ofNat rs2)

def imm (op : ImmOp) (rd rs1 : Nat) (imm : Int) : Except FieldError Instruction := do
  ofImm op (← Reg.ofNat rd) (← Reg.ofNat rs1) imm

def shift (op : ShiftOp) (rd rs1 shamt : Nat) : Except FieldError Instruction := do
  ofShift op (← Reg.ofNat rd) (← Reg.ofNat rs1) shamt

def store (op : StoreOp) (rs1 rs2 : Nat) (imm : Int) : Except FieldError Instruction := do
  ofStore op (← Reg.ofNat rs1) (← Reg.ofNat rs2) imm

def branch (op : BranchOp) (rs1 rs2 : Nat) (offset : Int) : Except FieldError Instruction := do
  ofBranch op (← Reg.ofNat rs1) (← Reg.ofNat rs2) offset

def upper (op : UpperOp) (rd : Nat) (imm : Word) : Except FieldError Instruction := do
  ofUpper op (← Reg.ofNat rd) imm

def jal (rd : Nat) (offset : Int) : Except FieldError Instruction := do
  ofJump (← Reg.ofNat rd) offset

end Instruction

end Rv32Asm

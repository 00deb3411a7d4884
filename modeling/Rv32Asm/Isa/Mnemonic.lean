import Rv32Asm.Isa.Opcode

/-!
# Mnemonics

The 37 mnemonics of the base integer set, grouped by instruction format. Each group has its own
type, so that an instruction can only be built from operands that its format takes. `lookup` goes
back from the codes of a machine word to the mnemonic.
-/

namespace Rv32Asm

/-- Operations on two source registers (format R). -/
inductive RegOp
  | add | sub | sll | slt | sltu | xor | srl | sra | or | and
  deriving DecidableEq

/-- Operations on a register and a 12-bit immediate (format I), shifts apart. -/
inductive ImmOp
  | jalr | lb | lh | lw | lbu | lhu | addi | slti | sltiu | xori | ori | andi
  deriving DecidableEq

/-- Shifts by a constant. -/
inductive ShiftOp
  | slli | srli | srai
  deriving DecidableEq

/-- Stores (format S). -/
inductive StoreOp
  | sb | sh | sw
  deriving DecidableEq

/-- Conditional branches (format B). -/
inductive BranchOp
  | beq | bne | blt | bge | bltu | bgeu
  deriving DecidableEq

/-- Operations on a 20-bit upper immediate (format U). -/
inductive UpperOp
  | lui | auipc
  deriving DecidableEq

/-- The opcodes of format I. -/
inductive ImmOpcode
  | jalr | load | opImm
  deriving DecidableEq

def ImmOpcode.opcode : ImmOpcode → Opcode
  | .jalr => .jalr | .load => .load | .opImm => .opImm

def UpperOp.opcode : UpperOp → Opcode
  | .lui => .lui | .auipc => .auipc

def RegOp.funct3 : RegOp → BitVec 3
  | .add | .sub => 0b000 | .sll => 0b001 | .slt => 0b010 | .sltu => 0b011 | .xor => 0b100
  | .srl | .sra => 0b101 | .or => 0b110 | .and => 0b111

def RegOp.funct7 : RegOp → BitVec 7
  | .sub | .sra => 0b0100000
  | _ => 0b0000000

def ImmOp.opcode : ImmOp → ImmOpcode
  | .jalr => .jalr
  | .lb | .lh | .lw | .lbu | .lhu => .load
  | _ => .opImm

def ImmOp.funct3 : ImmOp → BitVec 3
  | .jalr => 0b000
  | .lb => 0b000 | .lh => 0b001 | .lw => 0b010 | .lbu => 0b100 | .lhu => 0b101
  | .addi => 0b000 | .slti => 0b010 | .sltiu => 0b011 | .xori => 0b100 | .ori => 0b110
  | .andi => 0b111

def ShiftOp.funct3 : ShiftOp → BitVec 3
  | .slli => 0b001
  | .srli | .srai => 0b101

def ShiftOp.funct7 : ShiftOp → BitVec 7
  | .srai => 0b0100000
  | _ => 0b0000000

def StoreOp.funct3 : StoreOp → BitVec 3
  | .sb => 0b000 | .sh => 0b001 | .sw => 0b010

def BranchOp.funct3 : BranchOp → BitVec 3
  | .beq => 0b000 | .bne => 0b001 | .blt => 0b100 | .bge => 0b101 | .bltu => 0b110 | .bgeu => 0b111

/-- A mnemonic of the base integer set. -/
inductive Mnemonic
  | reg (op : RegOp)
  | imm (op : ImmOp)
  | shift (op : ShiftOp)
  | store (op : StoreOp)
  | branch (op : BranchOp)
  | upper (op : UpperOp)
  | jal
  deriving DecidableEq

namespace Mnemonic

/-- The format of the mnemonic's instructions. -/
def format : Mnemonic → Format
  | reg _ => .r
  | imm _ => .i
  | shift _ => .shift
  | store _ => .s
  | branch _ => .b
  | upper _ => .u
  | jal => .j

def opcode : Mnemonic → Opcode
  | reg _ => .op
  | imm op => op.opcode.opcode
  | shift _ => .opImm
  | store _ => .store
  | branch _ => .branch
  | upper op => op.opcode
  | jal => .jal

/-- The `funct3` code, in the formats that have one. -/
def funct3? : Mnemonic → Option (BitVec 3)
  | reg op => some op.funct3
  | imm op => some op.funct3
  | shift op => some op.funct3
  | store op => some op.funct3
  | branch op => some op.funct3
  | upper _ | jal => none

/-- The `funct7` code; a shift by a constant has its own in the immediate. -/
def funct7? : Mnemonic → Option (BitVec 7)
  | reg op => some op.funct7
  | shift op => some op.funct7
  | _ => none

instance : Named Mnemonic where
  all :=
    [upper .lui, upper .auipc, jal, imm .jalr,
     branch .beq, branch .bne, branch .blt, branch .bge, branch .bltu, branch .bgeu,
     imm .lb, imm .lh, imm .lw, imm .lbu, imm .lhu, store .sb, store .sh, store .sw,
     imm .addi, imm .slti, imm .sltiu, imm .xori, imm .ori, imm .andi,
     shift .slli, shift .srli, shift .srai,
     reg .add, reg .sub, reg .sll, reg .slt, reg .sltu, reg .xor, reg .srl, reg .sra, reg .or,
     reg .and]
  name
    | upper .lui => "lui" | upper .auipc => "auipc" | jal => "jal" | imm .jalr => "jalr"
    | branch .beq => "beq" | branch .bne => "bne" | branch .blt => "blt" | branch .bge => "bge"
    | branch .bltu => "bltu" | branch .bgeu => "bgeu"
    | imm .lb => "lb" | imm .lh => "lh" | imm .lw => "lw" | imm .lbu => "lbu" | imm .lhu => "lhu"
    | store .sb => "sb" | store .sh => "sh" | store .sw => "sw"
    | imm .addi => "addi" | imm .slti => "slti" | imm .sltiu => "sltiu" | imm .xori => "xori"
    | imm .ori => "ori" | imm .andi => "andi"
    | shift .slli => "slli" | shift .srli => "srli" | shift .srai => "srai"
    | reg .add => "add" | reg .sub => "sub" | reg .sll => "sll" | reg .slt => "slt"
    | reg .sltu => "sltu" | reg .xor => "xor" | reg .srl => "srl" | reg .sra => "sra"
    | reg .or => "or" | reg .and => "and"

/-- The name in capitals, as listings show it. -/
def capitals (m : Mnemonic) : String :=
  String.ofList ((Named.name m).toList.map Char.toUpper)

/-- The name with its first letter in capitals, as error messages show it. -/
def title (m : Mnemonic) : String :=
  match (Named.name m).toList with
  | [] => ""
  | c :: cs => String.ofList (c.toUpper :: cs)

/-- Does the mnemonic have this opcode and, if its format has a `funct3` code, this code? -/
def matchesCodes (opcode : Opcode) (funct3 : Option Nat) (m : Mnemonic) : Bool :=
  m.opcode == opcode && (m.funct3?.isNone || m.funct3?.map BitVec.toNat == funct3)

/-- The mnemonic of a triple of codes. The `funct7` code only decides between mnemonics that agree
on the other two, and is ignored elsewhere. Codes are plain numbers: one that is too wide for its
field belongs to no mnemonic. -/
def lookup (opcode : Opcode) (funct3 funct7 : Option Nat) : Option Mnemonic :=
  match (Named.all : List Mnemonic).filter (matchesCodes opcode funct3) with
  | [] => none
  | [m] => some m
  | ms => ms.find? fun m => m.funct7?.map BitVec.toNat == funct7

end Mnemonic

end Rv32Asm

import Rv32Asm.Named
import Rv32Asm.Text.Numeral

/-!
# Opcodes and instruction formats

The nine major opcodes of the base integer set, the instruction formats, and the set of fields
that an instruction of each format has.
-/

namespace Rv32Asm

/-- The major opcode of an instruction, held in its lowest seven bits. -/
inductive Opcode
  | lui | auipc | jal | jalr | branch | load | store | opImm | op
  deriving DecidableEq

namespace Opcode

/-- The seven bits of the opcode. -/
def bits : Opcode → BitVec 7
  | lui => 0b0110111#7
  | auipc => 0b0010111#7
  | jal => 0b1101111#7
  | jalr => 0b1100111#7
  | branch => 0b1100011#7
  | load => 0b0000011#7
  | store => 0b0100011#7
  | opImm => 0b0010011#7
  | op => 0b0110011#7

instance : Named Opcode where
  all := [lui, auipc, jal, jalr, branch, load, store, opImm, op]
  name
    | lui => "Lui" | auipc => "Auipc" | jal => "Jal" | jalr => "Jalr" | branch => "Branch"
    | load => "Load" | store => "Store" | opImm => "OpImm" | op => "Op"

/-- The opcode whose bits are the binary form of `n`. -/
def ofNat? (n : Nat) : Option Opcode :=
  (Named.all : List Opcode).find? fun opcode => opcode.bits.toNat == n

end Opcode

/-- The layout of an instruction word. In the shift format, which is otherwise format I, the upper
immediate bits hold a function code and the lower five the shift amount. -/
inductive Format
  | r | i | shift | s | b | u | j
  deriving DecidableEq

namespace Format

instance : Named Format where
  all := [r, i, shift, s, b, u, j]
  name
    | r => "R" | i => "I" | shift => "IShift" | s => "S" | b => "B" | u => "U" | j => "J"

/-- The format that an opcode and a `funct3` code select. -/
def of (opcode : Opcode) (funct3 : Option Nat) : Format :=
  match opcode with
  | .lui | .auipc => u
  | .jal => j
  | .jalr | .load => i
  | .branch => b
  | .store => s
  | .opImm => if funct3 = some 0b001 ∨ funct3 = some 0b101 then shift else i
  | .op => r

end Format

/-- A set of instruction fields, one bit for each; the two highest bits stand for no field. -/
structure FieldSet where
  bits : BitVec 8
  deriving DecidableEq

namespace FieldSet

def rd : FieldSet := ⟨0x01⟩
def rs1 : FieldSet := ⟨0x02⟩
def rs2 : FieldSet := ⟨0x04⟩
def funct3 : FieldSet := ⟨0x08⟩
def funct7 : FieldSet := ⟨0x10⟩
def imm : FieldSet := ⟨0x20⟩

/-- The empty set. -/
def empty : FieldSet := ⟨0⟩

instance : Union FieldSet := ⟨fun a b => ⟨a.bits ||| b.bits⟩⟩

/-- The set `a` if the condition holds, and otherwise the empty set. -/
def only (condition : Bool) (a : FieldSet) : FieldSet := if condition then a else empty

/-- The single fields with their names, in order. -/
def flags : List (String × FieldSet) :=
  [("RD", rd), ("RS1", rs1), ("RS2", rs2), ("FUNCT3", funct3), ("FUNCT7", funct7), ("IMM", imm)]

/-- The bits that stand for no field. -/
def unnamed (s : FieldSet) : BitVec 8 := s.bits &&& 0xc0

/-- The names of the fields in order, then the unnamed bits in hexadecimal, separated by bars. -/
def text (s : FieldSet) : String :=
  let known := flags.filter fun (_, flag) => s.bits &&& flag.bits != 0
  let rest := if s.unnamed = 0 then [] else ["0x" ++ Text.hex s.unnamed.toNat]
  " | ".intercalate (known.map (·.1) ++ rest)

/-- One member of a written set: a field name, or bits in hexadecimal. -/
def ofFlag? : List Char → Option FieldSet
  | '0' :: 'x' :: cs =>
    (Text.readNumeral 16 0x100 cs).toOption.map fun n => ⟨BitVec.ofNat 8 n⟩
  | cs => (flags.find? fun (name, _) => name.toList == cs).map (·.2)

/-- Reads a set as `text` writes it, with any white space around the members; a blank text is the
empty set. -/
def ofText? (s : String) : Option FieldSet :=
  if (Text.trim s.toList).isEmpty then some empty
  else (s.toList.splitOn '|').foldlM (fun set part => (set ∪ ·) <$> ofFlag? (Text.trim part)) empty

end FieldSet

/-- The fields that every instruction of the format has. -/
def Format.fields : Format → FieldSet
  | .r => .rd ∪ .rs1 ∪ .rs2 ∪ .funct3 ∪ .funct7
  | .i | .shift => .rd ∪ .rs1 ∪ .funct3 ∪ .imm
  | .s | .b => .rs1 ∪ .rs2 ∪ .funct3 ∪ .imm
  | .u | .j => .rd ∪ .imm

end Rv32Asm

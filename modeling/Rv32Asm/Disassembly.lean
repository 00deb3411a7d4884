import Rv32Asm.Isa.Encoding

/-!
# Disassembly

Instructions as text: the mnemonic in capitals, padded to five columns, and the operands that the
format has. An instruction that belongs to no mnemonic keeps its operands and shows a placeholder
for the name.
-/

namespace Rv32Asm

/-- Instruction codes that belong to no mnemonic. -/
structure Unrecognized where
  word : Word
  funct3 : Option (BitVec 3)
  funct7 : Option (BitVec 7)
  deriving DecidableEq

namespace Unrecognized

/-- A code that may be absent, as the message shows it. -/
def codeText {w : Nat} : Option (BitVec w) → String
  | some code => "Some(" ++ Text.decimal code.toNat ++ ")"
  | none => "None"

/-- The explanation given to the user. -/
def message (e : Unrecognized) : String :=
  "unrecognized encoding 0x" ++ Text.hexFixed 8 e.word.toNat ++ " (funct3=" ++ codeText e.funct3
    ++ ", funct7=" ++ codeText e.funct7 ++ ")"

end Unrecognized

/-- What stands where there is nothing to show. -/
def placeholder : String := "---"

/-- An immediate as text: lowercase hexadecimal with an `h` behind it and its sign in front. -/
def immText (value : Int) : String :=
  if value < 0 then "-" ++ Text.hex value.natAbs ++ "h" else Text.hex value.natAbs ++ "h"

/-- A register that may be absent as text. -/
def regText (r : Option Reg) : String := (r.map Reg.name).getD placeholder

namespace Instruction

/-- The mnemonic that the instruction belongs to. -/
def describe (inst : Instruction) : Except Unrecognized Mnemonic :=
  match Mnemonic.lookup inst.opcode (inst.funct3?.map BitVec.toNat)
      (inst.effectiveFunct7?.map BitVec.toNat) with
  | some m => .ok m
  | none => .error ⟨inst.encode, inst.funct3?, inst.effectiveFunct7?⟩

/-- The operands in the order of assembly text. -/
def operandTexts (inst : Instruction) : List String :=
  let rd := regText inst.rd?
  let rs1 := regText inst.rs1?
  let rs2 := regText inst.rs2?
  let imm := (inst.imm?.map immText).getD placeholder
  match inst.format with
  | .r => [rd, rs1, rs2]
  | .i => [rd, rs1, imm]
  | .shift => [rd, rs1, (inst.shamt?.map fun n => Text.decimal n.toNat).getD placeholder]
  | .s | .b => [rs1, rs2, imm]
  | .u | .j => [rd, imm]

/-- The name that listings show. -/
def nameText (inst : Instruction) : String :=
  match inst.describe with
  | .ok m => m.capitals
  | .error _ => placeholder

/-- The instruction as assembly text. -/
def text (inst : Instruction) : String :=
  Text.padRight 5 inst.nameText ++ " " ++ ", ".intercalate inst.operandTexts

/-- The machine word in eight hexadecimal digits. -/
def wordText (inst : Instruction) : String := Text.hexFixed 8 inst.encode.toNat

/-- The line of a listing: the machine word, a bar and the assembly text. -/
def line (inst : Instruction) : String := inst.wordText ++ " | " ++ inst.text

end Instruction

end Rv32Asm

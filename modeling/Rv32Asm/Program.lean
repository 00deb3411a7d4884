import Rv32Asm.Isa.Instruction

/-!
# Programs

A program is a sequence of label declarations and entries. An entry is an instruction, or a branch
or jump that names a label and becomes an instruction once the label's address is known. Labels
take no room: a label stands for the address of the next entry.
-/

namespace Rv32Asm

/-- A branch or jump to a label. -/
inductive Reference
  | branch (mnemonic : Mnemonic) (rs1 rs2 : Reg) (label : String)
  | jump (rd : Reg) (label : String)
  deriving DecidableEq

namespace Reference

/-- The label that is referred to. -/
def label : Reference → String
  | branch _ _ _ label => label
  | jump _ label => label

/-- The opcode of the instruction to come. -/
def opcode : Reference → Opcode
  | branch .. => .branch
  | jump .. => .jal

/-- A branch to a label from register numbers, which are checked in order. -/
def branchTo (mnemonic : Mnemonic) (rs1 rs2 : Nat) (label : String) :
    Except FieldError Reference := do
  return branch mnemonic (← Reg.ofNat rs1) (← Reg.ofNat rs2) label

/-- A jump to a label from a register number. -/
def jumpTo (rd : Nat) (label : String) : Except FieldError Reference := do
  return jump (← Reg.ofNat rd) label

end Reference

/-- What takes up one word of the program. -/
inductive Entry
  | concrete (inst : Instruction)
  | pending (ref : Reference)
  deriving DecidableEq

/-- A line of a program. -/
inductive Item
  | label (name : String)
  | entry (e : Entry)
  deriving DecidableEq

/-- The entry of an item that is one. -/
def Item.entry? : Item → Option Entry
  | label _ => none
  | entry e => some e

/-- Label declarations and entries in order. -/
abbrev Program := List Item

/-- The entries of a program in order. -/
def Program.entries (p : Program) : List Entry := p.filterMap Item.entry?

end Rv32Asm

import Rv32Asm.Assembly.Error
import Rv32Asm.Program

/-!
# Labels

The table of label addresses, and the instruction that a reference to a label stands for.
-/

namespace Rv32Asm

/-- The addresses of labels in the order of their definition; no name occurs twice in a table
built by `define`. -/
structure LabelTable where
  entries : List (String × Word)
  deriving DecidableEq

namespace LabelTable

def empty : LabelTable := ⟨[]⟩

def size (t : LabelTable) : Nat := t.entries.length

def isEmpty (t : LabelTable) : Bool := t.entries.isEmpty

/-- The address of a label. -/
def get? (t : LabelTable) (name : String) : Option Word := t.entries.lookup name

/-- Adds a label; a name that is in the table keeps its address, and defining it again is an
error. -/
def define (t : LabelTable) (name : String) (address : Word) : Except AssemblyError LabelTable :=
  match t.get? name with
  | some first => .error (.duplicateLabel name first address)
  | none => .ok ⟨t.entries ++ [(name, address)]⟩

end LabelTable

/-- The instruction at `pc` that a reference stands for. The offset to the label is an exact
difference of addresses and never wraps. -/
def Reference.resolve (labels : LabelTable) (pc : Word) (ref : Reference) :
    Except AssemblyError Instruction :=
  match labels.get? ref.label with
  | none => .error (.undefinedLabel ref.label pc)
  | some target =>
    let offset : Int := (target.toNat : Int) - pc.toNat
    match ref with
    | .branch (.branch op) rs1 rs2 _ =>
      (Instruction.ofBranch op rs1 rs2 offset).mapError (.encoding pc)
    | .branch mnemonic _ _ _ => .error (.notABranch mnemonic pc)
    | .jump rd _ => (Instruction.ofJump rd offset).mapError (.encoding pc)

/-- The instruction at `pc` that an entry stands for. -/
def Entry.resolve (labels : LabelTable) (pc : Word) : Entry → Except AssemblyError Instruction
  | concrete inst => .ok inst
  | pending ref => ref.resolve labels pc

end Rv32Asm

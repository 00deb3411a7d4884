import Rv32Asm.Disassembly

/-!
# Assembled programs

Instructions that stand in memory one after the other from an origin on, and their listing.
-/

namespace Rv32Asm

/-- Instructions in program order, the first of them at `origin`. -/
structure Assembly where
  origin : Word
  instructions : List Instruction
  deriving DecidableEq

namespace Assembly

def size (a : Assembly) : Nat := a.instructions.length

def isEmpty (a : Assembly) : Bool := a.instructions.isEmpty

/-- The machine words in order. -/
def words (a : Assembly) : List Word := a.instructions.map Instruction.encode

/-- The instructions with their addresses, which wrap past the end of the address space. -/
def placed (a : Assembly) : List (Word × Instruction) :=
  a.instructions.zipIdx.map fun (inst, i) => (a.origin + BitVec.ofNat 32 (4 * i), inst)

/-- The lines of the listing, one for each instruction. -/
def lines (a : Assembly) : List String := a.instructions.map fun inst => inst.line ++ "\n"

/-- The listing. -/
def listing (a : Assembly) : String := String.join a.lines

end Assembly

end Rv32Asm

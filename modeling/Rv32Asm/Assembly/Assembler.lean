import Rv32Asm.Assembly.Basic
import Rv32Asm.Assembly.Label

/-!
# The two passes

The first pass walks over the program from the origin, gives every label the address of the next
entry and records the address of every entry. The second resolves the references against the
finished table. An assembler keeps the labels and addresses that its passes have recorded, also
those of a pass that failed.
-/

namespace Rv32Asm

/-- A program being assembled, with what the first pass has recorded so far. -/
structure Assembler where
  program : Program
  origin : Word
  labels : LabelTable
  pcs : Array Word

/-- The state of the first pass between two items. The counter is a plain number, because it may
stand just past the last address; a failure ends the walk. -/
structure Walk where
  counter : Nat
  labels : LabelTable
  pcs : Array Word
  failure : Option AssemblyError

namespace Walk

/-- Passes over one item, which lies at a given address. -/
def place (w : Walk) (address : Word) : Item → Walk
  | .label name =>
    match w.labels.define name address with
    | .ok labels => { w with labels }
    | .error e => { w with failure := some e }
  | .entry _ => { w with pcs := w.pcs.push address, counter := w.counter + 4 }

/-- Passes over one item unless the walk has ended. -/
def step (w : Walk) (item : Item) : Walk :=
  match w.failure with
  | some _ => w
  | none =>
    if w.counter < addressCount then w.place (BitVec.ofNat 32 w.counter) item
    else { w with failure := some .addressOverflow }

end Walk

namespace Assembler

/-- An assembler that has recorded nothing. -/
def new (program : Program) (origin : Word) : Except AssemblyError Assembler :=
  if origin.toNat % 4 = 0 then .ok ⟨program, origin, .empty, #[]⟩
  else .error (.misalignedOrigin origin)

/-- The first pass. It adds to what is recorded, and what it has recorded before a failure
stays. -/
def pass1 (a : Assembler) : Assembler × Except AssemblyError Unit :=
  let w := a.program.foldl Walk.step ⟨a.origin.toNat, a.labels, a.pcs, none⟩
  let outcome := match w.failure with
    | some e => .error e
    | none => .ok ()
  ({ a with labels := w.labels, pcs := w.pcs }, outcome)

/-- The entries with the addresses recorded for them; entries without one are left out. -/
def placed (a : Assembler) : List (Entry × Word) := a.program.entries.zip a.pcs.toList

/-- The second pass. -/
def pass2 (a : Assembler) : Except AssemblyError (List Instruction) :=
  a.placed.mapM fun (entry, pc) => entry.resolve a.labels pc

end Assembler

/-- The origin of a program when none is given. -/
def defaultOrigin : Word := 0x10000000#32

/-- Assembles a program: both passes, or the first error met. -/
def assemble (program : Program) (origin : Word) : Except AssemblyError Assembly := do
  let fresh ← Assembler.new program origin
  let (a, outcome) := fresh.pass1
  outcome
  return ⟨origin, ← a.pass2⟩

end Rv32Asm

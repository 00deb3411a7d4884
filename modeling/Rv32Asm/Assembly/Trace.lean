import Rv32Asm.Assembly.Assembler
import Rv32Asm.Text.Blank
import Rv32Asm.Text.Quoted

/-!
# Traces

What an assembly reports about its progress: the start of each pass, every label that the first
pass defines and every reference that the second resolves, up to the first error. The disassembly
reports the instructions that belong to no mnemonic.
-/

namespace Rv32Asm

/-- How important a report is. -/
inductive Level
  | debug | trace | warn
  deriving DecidableEq

def Level.name : Level → String
  | debug => "DEBUG"
  | trace => "TRACE"
  | warn => "WARN"

/-- A report. -/
inductive Event
  | firstPass (origin : Word) (items : Nat)
  | labelDefined (name : String) (address : Word)
  | secondPass (labels : Nat)
  | resolved (label : String) (pc : Word) (offset : Int)
  | unrecognized (cause : Unrecognized)
  deriving DecidableEq

namespace Event

def level : Event → Level
  | firstPass .. | labelDefined .. | secondPass .. => .debug
  | resolved .. => .trace
  | unrecognized .. => .warn

/-- The report as text, its label being written as it is where it is defined and between quotes
where it is resolved. -/
def text : Event → String
  | firstPass origin items =>
    "pass 1 origin=" ++ addressText origin ++ " items=" ++ Text.decimal items
  | labelDefined name address => "label defined label=" ++ name ++ " addr=" ++ addressText address
  | secondPass labels => "pass 2 labels=" ++ Text.decimal labels
  | resolved label pc offset =>
    "resolved label=" ++ Text.quoted label ++ " pc=" ++ addressText pc ++ " imm="
      ++ Text.signedDecimal offset
  | unrecognized cause => cause.message

/-- The lines of a log that the report takes, under the name of the part that makes it. A label
with line breaks makes a report of several lines, and no line keeps blanks at its ends. -/
def lines (part : String) (e : Event) : List String :=
  Text.trimmedLines (e.level.name ++ " " ++ part ++ ": " ++ e.text)

end Event

namespace Assembler

/-- The reports of the first pass: its start, and the labels that it adds to the table. -/
def pass1Events (a : Assembler) : List Event :=
  .firstPass a.origin a.program.length ::
    (a.pass1.1.labels.entries.drop a.labels.size).map fun (name, address) =>
      .labelDefined name address

/-- The report of a resolved reference; an entry that is an instruction gives none. -/
def resolvedEvent? (a : Assembler) : Entry × Word → Option Event
  | (.concrete _, _) => none
  | (.pending ref, pc) => do
    let inst ← (ref.resolve a.labels pc).toOption
    return .resolved ref.label pc (← inst.imm?)

/-- The reports of the second pass: its start, and the references before the first that cannot be
resolved. -/
def pass2Events (a : Assembler) : List Event :=
  .secondPass a.labels.size ::
    (a.placed.takeWhile fun (entry, pc) => (entry.resolve a.labels pc).isOk).filterMap
      a.resolvedEvent?

end Assembler

/-- The reports of an assembly. -/
def assembleEvents (program : Program) (origin : Word) : List Event :=
  match Assembler.new program origin with
  | .error _ => []
  | .ok fresh =>
    match fresh.pass1 with
    | (_, .error _) => fresh.pass1Events
    | (a, .ok ()) => fresh.pass1Events ++ a.pass2Events

/-- The reports of disassembling an instruction. -/
def Instruction.textEvents (inst : Instruction) : List Event :=
  match inst.describe with
  | .ok _ => []
  | .error cause => [.unrecognized cause]

end Rv32Asm

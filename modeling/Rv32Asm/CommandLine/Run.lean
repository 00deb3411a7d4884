import Rv32Asm.Assembly.Assembler
import Rv32Asm.CommandLine.Arguments
import Rv32Asm.Statement.File

/-!
# Running a command

A run loads the program, reads the origin, assembles and renders, in this order; the first step
that fails ends it, and there is no output then. The exit code is 0 for a run with output, 1 for a
run without, and 2 if the arguments cannot be understood.
-/

namespace Rv32Asm.CommandLine

/-- Why a run has no output. -/
inductive RunError
  | noSource
  | load (cause : LoadError)
  | sample (cause : FieldError)
  | origin (cause : Text.NumeralError)
  | assembly (cause : AssemblyError)
  | hex (cause : Hex.PositionOverflow)
  deriving DecidableEq

/-- The explanation of a fault in a program's text. -/
def faultMessage : Json.Fault → String
  | .truncated => "the program text ends too early"
  | .malformed => "the program text is not valid JSON"
  | .mismatch => "the program text is not an array of statements"

/-- The explanation given to the user; a field that cannot be encoded is given as the cause in a
paragraph of its own. -/
def RunError.message : RunError → String
  | noSource => "one of --input or --demo is required"
  | load (.read cause) => cause.message
  | load (.program (.json fault)) => faultMessage fault
  | load (.program (.statement cause)) => cause.message
  | sample cause => cause.message
  | origin cause => cause.message
  | assembly (.encoding pc cause) =>
    (AssemblyError.encoding pc cause).message ++ "\n\nCaused by:\n    " ++ cause.message
  | assembly cause => cause.message
  | hex cause => cause.message

/-- What a run produces: a text, for a file if one is given. -/
structure Output where
  text : String
  destination : Option String
  deriving DecidableEq

/-- The program that the invocation asks for; `contents` is what its input file holds. -/
def loadSource (contents : Option ByteArray) : Option Source → Except RunError Program
  | none => .error .noSource
  | some (.file _) => (Program.load contents).mapError .load
  | some (.sample s) => s.program.mapError .sample

/-- The listing as a JSON array with an object for each instruction. -/
def jsonListing (a : Assembly) : Json.Value :=
  .array (a.placed.map fun (address, inst) =>
    .object [("address", .int address.toNat), ("word", .string inst.wordText),
      ("text", .string inst.text)])

/-- The text that a command makes of an assembled program. -/
def render (a : Assembly) : Command → Except RunError String
  | .listing .text => .ok a.listing
  | .listing .json => .ok ((jsonListing a).pretty ++ "\n")
  | .ihex addressing => (Hex.image a addressing).mapError .hex

/-- Runs an invocation; `contents` is what its input file holds. -/
def run (contents : Option ByteArray) (invocation : Invocation) : Except RunError Output := do
  let program ← loadSource contents invocation.source
  let origin ← (Text.readAddress invocation.origin).mapError .origin
  let a ← (assemble program origin).mapError .assembly
  return ⟨← render a invocation.command, invocation.out⟩

/-- What is left when the program ends: the exit code, the text on the standard output, a file with
its contents, and the error. -/
structure Outcome where
  code : Nat
  stdout : String
  file : Option (String × String)
  failure : Option RunError
  deriving DecidableEq

/-- The arguments cannot be understood. -/
def Outcome.rejected : Outcome := ⟨2, "", none, none⟩

/-- What is left of a run. -/
def Outcome.ofRun : Except RunError Output → Outcome
  | .ok ⟨text, none⟩ => ⟨0, text, none, none⟩
  | .ok ⟨text, some path⟩ => ⟨0, "", some (path, text), none⟩
  | .error e => ⟨1, "", none, some e⟩

/-- The input file of an invocation. -/
def Invocation.inputPath? (invocation : Invocation) : Option String :=
  match invocation.source with
  | some (.file path) => some path
  | _ => none

/-- What the program leaves on these arguments, given the contents of the files that exist. No log
filter is set, so the reports of the run (`assembleEvents`, `Instruction.textEvents`) are not
printed; with a filter they would stand on the standard output, whether a file is given or not. -/
def outcome (files : String → Option ByteArray) (args : List String) : Outcome :=
  match parse? args with
  | none => .rejected
  | some invocation => .ofRun (run (invocation.inputPath?.bind files) invocation)

end Rv32Asm.CommandLine

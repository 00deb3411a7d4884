import Rv32Asm.Statement.Json

/-!
# Program files

Programs read from the contents of a file, which may be missing.
-/

namespace Rv32Asm

/-- Why a file cannot be read as text. -/
inductive ReadError
  | missing
  | invalidText
  deriving DecidableEq

/-- The explanation given to the user. -/
def ReadError.message : ReadError → String
  | missing => "No such file or directory (os error 2)"
  | invalidText => "stream did not contain valid UTF-8"

/-- The text of a file, which has to be valid UTF-8 throughout. -/
def readText : Option ByteArray → Except ReadError String
  | none => .error .missing
  | some bytes =>
    match String.fromUTF8? bytes with
    | some s => .ok s
    | none => .error .invalidText

/-- Why a file is not a program. -/
inductive LoadError
  | read (cause : ReadError)
  | program (cause : ProgramError)
  deriving DecidableEq

/-- The program in a file. -/
def Program.load (contents : Option ByteArray) : Except LoadError Program := do
  let text ← (readText contents).mapError .read
  (Program.read text).mapError .program

end Rv32Asm

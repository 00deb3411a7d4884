import Rv32Asm.CommandLine.Run

/-!
# The program

Reads the input file, runs the command and puts its outcome into effect.
-/

namespace Rv32Asm.CommandLine

/-- The contents of a file, if it exists. -/
def readFile? (path : String) : IO (Option ByteArray) := do
  try
    return some (← IO.FS.readBinFile path)
  catch e =>
    match e with
    | .noFileOrDirectory .. => return none
    | e => throw e

/-- The explanation of a failed access to a file. -/
def accessMessage : IO.Error → String
  | .noFileOrDirectory .. => ReadError.missing.message
  | e => toString e

/-- Writes what an outcome leaves and returns its exit code. -/
def Outcome.perform (o : Outcome) : IO UInt32 := do
  if let some (path, text) := o.file then IO.FS.writeFile path text
  IO.print o.stdout
  if let some e := o.failure then IO.eprintln ("Error: " ++ e.message)
  return UInt32.ofNat o.code

/-- Runs the program on its arguments; a file that cannot be read or written ends it. -/
def execute (args : List String) : IO UInt32 := do
  try
    let contents ← match parse? args >>= Invocation.inputPath? with
      | some path => readFile? path
      | none => pure none
    (outcome (fun _ => contents) args).perform
  catch e =>
    IO.eprintln ("Error: " ++ accessMessage e)
    return 1

end Rv32Asm.CommandLine

def main (args : List String) : IO UInt32 := Rv32Asm.CommandLine.execute args

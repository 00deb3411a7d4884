import Rv32Asm.Hex.Image
import Rv32Asm.Sample

/-!
# Command line arguments

The program source and the origin are options in front of the command, and each command has
options of its own behind it. The value of an option follows it as the next argument or after an
equals sign; the next argument is not a value if it looks like an option.
-/

namespace Rv32Asm.CommandLine

/-- Where the program comes from. -/
inductive Source
  | file (path : String)
  | sample (s : Sample)
  deriving DecidableEq

inductive ListingFormat
  | text | json
  deriving DecidableEq

/-- What to make of the assembled program. -/
inductive Command
  | listing (format : ListingFormat)
  | ihex (addressing : Hex.Addressing)
  deriving DecidableEq

/-- What the command line asks for. -/
structure Invocation where
  source : Option Source
  origin : String
  command : Command
  /-- The file that gets the output in place of the standard output. -/
  out : Option String
  deriving DecidableEq

/-- The options that are given, with their values. -/
abbrev Options := List (String × String)

/-- Splits a long option, without its dashes, at the first equals sign. -/
def splitOption (body : List Char) : String × Option String :=
  match body.span (· != '=') with
  | (name, _ :: value) => (String.ofList name, some (String.ofList value))
  | (name, []) => (String.ofList name, none)

/-- Can the argument be the value of the option before it? A dash alone can. -/
def isSeparateValue (arg : String) : Bool :=
  match arg.toList with
  | '-' :: _ :: _ => false
  | _ => true

/-- Takes the options off the front of the arguments. All have to be known and to have a value. -/
def takeOptions (known : List String) : List String → Option (Options × List String)
  | [] => some ([], [])
  | arg :: args =>
    match arg.toList with
    | '-' :: '-' :: c :: cs =>
      match splitOption (c :: cs), args with
      | (name, some value), args =>
        if name ∈ known then do
          let (options, rest) ← takeOptions known args
          return ((name, value) :: options, rest)
        else none
      | (name, none), value :: args =>
        if name ∈ known && isSeparateValue value then do
          let (options, rest) ← takeOptions known args
          return ((name, value) :: options, rest)
        else none
      | (_, none), [] => none
    | _ => some ([], arg :: args)

/-- Takes the options off the front of the arguments, none of which may be repeated. -/
def takeDistinctOptions (known : List String) (args : List String) :
    Option (Options × List String) := do
  let (options, rest) ← takeOptions known args
  if (options.map (·.1)).Nodup then return (options, rest) else none

/-- The path that an option gives, which must not be empty. -/
def path? (options : Options) (name : String) : Option (Option String) :=
  match options.lookup name with
  | some "" => none
  | value => some value

/-- The choice that an option gives among named alternatives. -/
def choice? {α : Type} (alternatives : List (String × α)) (options : Options) (name : String) :
    Option (Option α) :=
  match options.lookup name with
  | some value => some <$> alternatives.lookup value
  | none => some none

def samples : List (String × Sample) :=
  [("seven-segment", .sevenSegment), ("encodings", .encodings)]

def formats : List (String × ListingFormat) := [("text", .text), ("json", .json)]

def addressings : List (String × Hex.Addressing) :=
  [("ordinal", .ordinal), ("absolute", .absolute)]

/-- The source of the program: a file or a sample, but not both. -/
def source? (options : Options) : Option (Option Source) := do
  match ← path? options "input", ← choice? samples options "demo" with
  | some _, some _ => none
  | some path, none => return some (.file path)
  | none, some sample => return some (.sample sample)
  | none, none => return none

/-- Nothing may follow the options of a command but a mark that ends them. -/
def isFinished (args : List String) : Bool := args == [] || args == ["--"]

/-- The command and the file for its output. -/
def command? : List String → Option (Command × Option String)
  | "listing" :: args => do
    let (options, rest) ← takeDistinctOptions ["format", "out"] args
    let format ← choice? formats options "format"
    let out ← path? options "out"
    if isFinished rest then return (.listing (format.getD .text), out) else none
  | "ihex" :: args => do
    let (options, rest) ← takeDistinctOptions ["addressing", "out"] args
    let addressing ← choice? addressings options "addressing"
    let out ← path? options "out"
    if isFinished rest then return (.ihex (addressing.getD .ordinal), out) else none
  | _ => none

/-- What the arguments ask for, if they can be understood. Requests for help and for the version,
which are answered with a text and exit code 0 and ask for no run, are left out: here `--help`,
`-h`, `--version`, `-V` and `help` are arguments that cannot be understood. -/
def parse? (args : List String) : Option Invocation := do
  let (options, rest) ← takeDistinctOptions ["input", "demo", "origin"] args
  let source ← source? options
  let (command, out) ← command? rest
  return ⟨source, (options.lookup "origin").getD "0x10000000", command, out⟩

end Rv32Asm.CommandLine

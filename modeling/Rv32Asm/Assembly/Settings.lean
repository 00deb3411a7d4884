import Rv32Asm.Assembly.Assembler
import Rv32Asm.Json.Form
import Rv32Asm.Json.Skip

/-!
# Assembly settings

The settings of an assembly are its origin, read from a JSON object in which other members are
passed over, or from an array that has the origin as its only item.
-/

namespace Rv32Asm

/-- How a program is assembled. -/
structure Settings where
  origin : Word

namespace Settings

open Json (Value Reader)

/-- An address is an unsigned number of 32 bits. -/
def addressOfJson? (v : Value) : Option Word :=
  (Json.int? 0 addressCount v).map (BitVec.ofInt 32)

/-- Reads the value of a member: an address for the origin, and nothing for other names. -/
def memberValue (name : String) : Reader (Option Word) :=
  if name = "origin" then fun cs =>
    (fun (a, rest) => (some a, rest)) <$> Json.interpreted addressOfJson? 0 cs
  else fun cs => (fun (_, rest) => (none, rest)) <$> Json.skipValue cs

/-- Reads settings; exactly one origin is needed. -/
def reader : Reader Settings := fun cs => do
  let (origins, rest) ← match Json.skipSpace cs with
    | '[' :: cs => Json.items ']' (Json.interpreted addressOfJson? 0) cs
    | '\x7b' :: cs => do
      let (members, rest) ← Json.items '\x7d' (Json.memberWith memberValue) cs
      pure (members.filterMap (·.2), rest)
    | _ => .error .mismatch
  match origins with
  | [origin] => return (⟨origin⟩, rest)
  | _ => .error .mismatch

/-- Reads a text as settings. -/
def read (s : String) : Except Json.Fault Settings := Json.whole reader s

/-- The settings on one line. -/
def write (settings : Settings) : String :=
  (Value.object [("origin", .int settings.origin.toNat)]).compact

end Settings

end Rv32Asm

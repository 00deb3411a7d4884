/-!
# JSON values

Members of an object keep their order and may repeat a name, so that a reader of the value can
refuse repetitions. Numbers are either integers or decimals, by the form in which they are written.
-/

namespace Rv32Asm.Json

/-- A JSON value. -/
inductive Value
  | null
  | bool (b : Bool)
  /-- A number written as an integer that fits in 64 bits, signed or unsigned. -/
  | int (n : Int)
  /-- Any other number, as it is written. -/
  | decimal (literal : String)
  | string (s : String)
  | array (items : List Value)
  | object (members : List (String × Value))

/-- Why a text cannot be read. -/
inductive Fault
  /-- The text ends too early. -/
  | truncated
  /-- The text breaks the grammar, nests too deeply or holds a number that is too large. -/
  | malformed
  /-- The text is well formed up to a value that is not of the expected kind. -/
  | mismatch
  deriving DecidableEq

end Rv32Asm.Json

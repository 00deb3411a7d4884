import Rv32Asm.Json.Text
import Rv32Asm.Json.Value

/-!
# Writing JSON

Values as text, either on one line without blanks, or with each item and member on a line of its
own, indented by two blanks for each level.
-/

namespace Rv32Asm.Json

mutual

/-- The value on one line. -/
def Value.compact : Value → String
  | .null => "null"
  | .bool true => "true"
  | .bool false => "false"
  | .int n => Text.signedDecimal n
  | .decimal literal => literal
  | .string s => quoted s
  | .array vs => "[" ++ ",".intercalate (compactItems vs) ++ "]"
  | .object ms => "\x7b" ++ ",".intercalate (compactMembers ms) ++ "\x7d"

def compactItems : List Value → List String
  | [] => []
  | v :: vs => v.compact :: compactItems vs

def compactMembers : List (String × Value) → List String
  | [] => []
  | (name, v) :: ms => (quoted name ++ ":" ++ v.compact) :: compactMembers ms

end

/-- A line break and the indentation of a level. -/
def lineBreak (level : Nat) : String := String.ofList ('\n' :: List.replicate (2 * level) ' ')

/-- Parts between brackets, each on a line of its own a level further in. -/
def block (level : Nat) (opening closing : String) : List String → String
  | [] => opening ++ closing
  | parts =>
    opening ++ lineBreak (level + 1) ++ ("," ++ lineBreak (level + 1)).intercalate parts
      ++ lineBreak level ++ closing

mutual

/-- The value on several lines, of which the first stands at the given level. -/
def Value.indented (level : Nat) : Value → String
  | .array vs => block level "[" "]" (indentedItems (level + 1) vs)
  | .object ms => block level "\x7b" "\x7d" (indentedMembers (level + 1) ms)
  | v => v.compact

def indentedItems (level : Nat) : List Value → List String
  | [] => []
  | v :: vs => v.indented level :: indentedItems level vs

def indentedMembers (level : Nat) : List (String × Value) → List String
  | [] => []
  | (name, v) :: ms => (quoted name ++ ": " ++ v.indented level) :: indentedMembers level ms

end

/-- The value on several lines. -/
def Value.pretty (v : Value) : String := v.indented 0

end Rv32Asm.Json

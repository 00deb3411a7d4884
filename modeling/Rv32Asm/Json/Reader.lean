import Rv32Asm.Json.Number
import Rv32Asm.Json.Text

/-!
# Reading JSON

A strict reader. It consumes a text from the left and reports the first fault it meets; the faults
tell a text that ends too early from one that breaks the grammar. Arrays and objects may nest up to
127 deep.
-/

namespace Rv32Asm.Json

/-- Reads something off the front of a text. -/
abbrev Reader (α : Type) := List Char → Except Fault (α × List Char)

/-- Is the character white space between the parts of a text? -/
def isSpace (c : Char) : Bool := c == ' ' || c == '\t' || c == '\n' || c == '\r'

/-- The text without the white space in front. -/
def skipSpace (cs : List Char) : List Char := cs.dropWhile isSpace

/-- Reads the rest of a literal name. -/
def word {α : Type} (a : α) : List Char → Reader α
  | [], cs => .ok (a, cs)
  | _ :: _, [] => .error .truncated
  | w :: ws, c :: cs => if c = w then word a ws cs else .error .malformed

/-- Reads a value that is neither an array nor an object. -/
def scalar : Reader Value
  | [] => .error .truncated
  | 'n' :: cs => word .null ['u', 'l', 'l'] cs
  | 't' :: cs => word (.bool true) ['r', 'u', 'e'] cs
  | 'f' :: cs => word (.bool false) ['a', 'l', 's', 'e'] cs
  | '"' :: cs => (fun (s, rest) => (.string s, rest)) <$> stringBody cs
  | c :: cs =>
    if c = '-' ∨ c.isDigit then do
      let (literal, rest) ← scanNumber (c :: cs)
      return (← literal.value, rest)
    else .error .malformed

/-- Reads items up to a closing bracket, commas standing between them; `before` has the items
already read, in reverse. The fuel is a text at least as long as the one being read: every item uses
up a character, so the text has ended when the fuel has. -/
def itemLoop {α : Type} (close : Char) (item : Reader α) : List Char → List α → Reader (List α)
  | [], _, _ => .error .truncated
  | _ :: fuel, before, cs =>
    match item cs with
    | .error e => .error e
    | .ok (a, rest) =>
      match skipSpace rest with
      | [] => .error .truncated
      | c :: rest =>
        if c = close then .ok ((a :: before).reverse, rest)
        else if c = ',' then itemLoop close item fuel (a :: before) rest
        else .error .malformed

/-- Reads items behind an opening bracket up to the closing one. -/
def items {α : Type} (close : Char) (item : Reader α) : Reader (List α) := fun cs =>
  match skipSpace cs with
  | [] => .error .truncated
  | c :: rest =>
    if c = close then .ok ([], rest) else itemLoop close item (c :: rest) [] (c :: rest)

/-- Reads a member of an object, whose name decides how its value is read. -/
def memberWith {α : Type} (value : String → Reader α) : Reader (String × α) := fun cs =>
  match skipSpace cs with
  | [] => .error .truncated
  | '"' :: cs => do
    let (name, rest) ← stringBody cs
    match skipSpace rest with
    | [] => .error .truncated
    | ':' :: rest =>
      let (a, rest) ← value name rest
      return ((name, a), rest)
    | _ => .error .malformed
  | _ => .error .malformed

/-- Reads a value in which arrays and objects nest at most `depth` deep. -/
def value : Nat → Reader Value
  | 0 => fun cs =>
    match skipSpace cs with
    | '[' :: _ => .error .malformed
    | '\x7b' :: _ => .error .malformed
    | cs => scalar cs
  | depth + 1 => fun cs =>
    match skipSpace cs with
    | '[' :: cs => (fun (vs, rest) => (.array vs, rest)) <$> items ']' (value depth) cs
    | '\x7b' :: cs =>
      (fun (ms, rest) => (.object ms, rest)) <$> items '\x7d' (memberWith fun _ => value depth) cs
    | cs => scalar cs

/-- How deep arrays and objects may nest. -/
def maxDepth : Nat := 127

/-- Reads a whole text: nothing but white space may follow. -/
def whole {α : Type} (reader : Reader α) (s : String) : Except Fault α := do
  let (a, rest) ← reader s.toList
  if (skipSpace rest).isEmpty then return a else .error .malformed

/-- Reads a text as a value. -/
def parse (s : String) : Except Fault Value := whole (value maxDepth) s

/-- Reads a value and interprets it. -/
def interpreted {α : Type} (interpret : Value → Option α) (depth : Nat) : Reader α := fun cs => do
  let (v, rest) ← value depth cs
  match interpret v with
  | some a => return (a, rest)
  | none => .error .mismatch

/-- Reads an array, interpreting each item as soon as it is read: an item that cannot be interpreted
ends the reading before the text behind it is looked at. -/
def interpretedArray {α : Type} (interpret : Value → Option α) : Reader (List α) := fun cs =>
  match skipSpace cs with
  | '[' :: cs => items ']' (interpreted interpret (maxDepth - 1)) cs
  | '\x7b' :: _ => .error .mismatch
  | cs => do
    let _ ← scalar cs
    .error .mismatch

end Rv32Asm.Json

import Rv32Asm.Json.Value
import Rv32Asm.Text.Digits

/-!
# JSON strings

Strings between quotes, read and written. Escapes of UTF-16 code units are joined into characters
when they are read, and a surrogate that stands alone is refused. Only quotes, backslashes and
control characters are escaped when a string is written.
-/

namespace Rv32Asm.Json

/-! ### Reading -/

/-- The code unit of four hexadecimal digits. A text that has fewer than four bytes left ends too
early, whatever they are. -/
def codeUnit : List Char → Except Fault (Nat × List Char)
  | a :: b :: c :: d :: cs =>
    match [a, b, c, d].mapM Text.hexDigitValue? with
    | some digits => .ok (digits.foldl (fun n d => n * 16 + d) 0, cs)
    | none => .error .malformed
  | cs => .error (if (String.ofList cs).utf8ByteSize < 4 then .truncated else .malformed)

/-- The character of a high surrogate and the escaped code unit that has to follow it. -/
def surrogatePair (high : Nat) : List Char → Except Fault (Char × List Char)
  | '\\' :: 'u' :: cs => do
    let (low, cs) ← codeUnit cs
    if 0xdc00 ≤ low ∧ low ≤ 0xdfff then
      return (Char.ofNat (0x10000 + (high - 0xd800) * 0x400 + (low - 0xdc00)), cs)
    else .error .malformed
  | [] | ['\\'] => .error .truncated
  | _ => .error .malformed

/-- The character of an escaped code unit, together with its pair if it is a surrogate. -/
def unicodeEscape (cs : List Char) : Except Fault (Char × List Char) := do
  let (unit, cs) ← codeUnit cs
  if 0xdc00 ≤ unit ∧ unit ≤ 0xdfff then .error .malformed
  else if 0xd800 ≤ unit ∧ unit ≤ 0xdbff then surrogatePair unit cs
  else return (Char.ofNat unit, cs)

/-- The characters that a single letter behind a backslash stands for. -/
def shortEscapes : List (Char × Char) :=
  [('"', '"'), ('\\', '\\'), ('/', '/'), ('b', '\x08'), ('f', '\x0c'), ('n', '\n'), ('r', '\r'),
   ('t', '\t')]

/-- The character of an escape, behind its backslash. -/
def escape : List Char → Except Fault (Char × List Char)
  | [] => .error .truncated
  | 'u' :: cs => unicodeEscape cs
  | c :: cs =>
    match shortEscapes.lookup c with
    | some x => .ok (x, cs)
    | none => .error .malformed

/-- Is the character one that a string cannot hold unescaped? -/
def isControl (c : Char) : Bool := c.toNat < 0x20

/-- The next character of a string, or nothing behind its closing quote. -/
def stringStep : List Char → Except Fault (Option Char × List Char)
  | [] => .error .truncated
  | '"' :: cs => .ok (none, cs)
  | '\\' :: cs => (fun (c, rest) => (some c, rest)) <$> escape cs
  | c :: cs => if isControl c then .error .malformed else .ok (some c, cs)

/-- The rest of a string, with the characters before it in reverse. The fuel is a text at least as
long as the one being read: every step uses up a character, so the text has ended when the fuel
has. -/
def stringLoop : List Char → List Char → List Char → Except Fault (String × List Char)
  | [], _, _ => .error .truncated
  | _ :: fuel, before, cs =>
    match stringStep cs with
    | .error e => .error e
    | .ok (none, rest) => .ok (String.ofList before.reverse, rest)
    | .ok (some c, rest) => stringLoop fuel (c :: before) rest

/-- The rest of a string behind its opening quote. -/
def stringBody (cs : List Char) : Except Fault (String × List Char) :=
  stringLoop cs [] cs

/-! ### Writing -/

/-- A character as it stands in a written string. -/
def escaped (c : Char) : List Char :=
  match c with
  | '"' => ['\\', '"']
  | '\\' => ['\\', '\\']
  | '\x08' => ['\\', 'b']
  | '\t' => ['\\', 't']
  | '\n' => ['\\', 'n']
  | '\x0c' => ['\\', 'f']
  | '\r' => ['\\', 'r']
  | c => if isControl c then '\\' :: 'u' :: Text.fixedDigits 16 4 c.toNat else [c]

/-- The string between quotes. -/
def quoted (s : String) : String :=
  String.ofList ('"' :: s.toList.flatMap escaped ++ ['"'])

end Rv32Asm.Json

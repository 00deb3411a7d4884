import Rv32Asm.Json.Value
import Rv32Asm.Text.Digits

/-!
# JSON numbers

A number literal is scanned into its parts first. A literal without fraction and exponent whose
value fits in 64 bits is an integer; minus zero is not. Every other literal is a decimal, and one
whose magnitude a double cannot hold is refused.
-/

namespace Rv32Asm.Json

/-- The parts of a number literal; the digits are those before the point, behind it and in the
exponent. -/
structure Literal where
  negative : Bool
  whole : List Char
  fraction : Option (List Char)
  exponent : Option (Char × Option Char × List Char)

/-- At least one digit is needed: without any, the text has ended or is malformed. -/
def someDigits (cs : List Char) : Except Fault (List Char × List Char) :=
  match cs.span Char.isDigit with
  | ([], []) => .error .truncated
  | ([], _ :: _) => .error .malformed
  | (digits, rest) => .ok (digits, rest)

/-- The digits before the point: a single zero, or digits that do not start with one. -/
def scanWhole (cs : List Char) : Except Fault (List Char × List Char) := do
  match ← someDigits cs with
  | ('0' :: _ :: _, _) => .error .malformed
  | result => return result

/-- The point and the digits behind it, if there is a point. -/
def scanFraction : List Char → Except Fault (Option (List Char) × List Char)
  | '.' :: cs => (fun (digits, rest) => (some digits, rest)) <$> someDigits cs
  | cs => .ok (none, cs)

/-- The sign of an exponent, if it has one. -/
def scanSign : List Char → Option Char × List Char
  | '+' :: cs => (some '+', cs)
  | '-' :: cs => (some '-', cs)
  | cs => (none, cs)

/-- The exponent, if there is one. -/
def scanExponent : List Char →
    Except Fault (Option (Char × Option Char × List Char) × List Char)
  | c :: cs =>
    if c = 'e' ∨ c = 'E' then do
      let (sign, cs) := scanSign cs
      let (digits, rest) ← someDigits cs
      return (some (c, sign, digits), rest)
    else .ok (none, c :: cs)
  | [] => .ok (none, [])

/-- The literal behind a sign that has been read. -/
def scanUnsigned (negative : Bool) (cs : List Char) : Except Fault (Literal × List Char) := do
  let (whole, cs) ← scanWhole cs
  let (fraction, cs) ← scanFraction cs
  let (exponent, cs) ← scanExponent cs
  return (⟨negative, whole, fraction, exponent⟩, cs)

/-- Scans a number literal. -/
def scanNumber : List Char → Except Fault (Literal × List Char)
  | '-' :: cs => scanUnsigned true cs
  | cs => scanUnsigned false cs

/-- The number that decimal digits stand for. -/
def natOfDigits (digits : List Char) : Nat :=
  digits.foldl (fun n c => n * 10 + (c.toNat - '0'.toNat)) 0

namespace Literal

/-- The literal as it is written. -/
def text (l : Literal) : String :=
  let exponent := match l.exponent with
    | some (mark, sign, digits) => mark :: sign.toList ++ digits
    | none => []
  String.ofList ((if l.negative then ['-'] else []) ++ l.whole
    ++ (l.fraction.map ('.' :: ·)).getD [] ++ exponent)

/-- The integer that the literal is, if it is written as one and fits in 64 bits. -/
def int? (l : Literal) : Option Int :=
  if l.fraction.isSome || l.exponent.isSome then none
  else
    let n := natOfDigits l.whole
    if l.negative then if 0 < n ∧ n ≤ 0x8000000000000000 then some (-n) else none
    else if n < 0x10000000000000000 then some n else none

end Literal

/-! ### Magnitude

The magnitude is a significand of 64 bits scaled by a power of ten. Digits that no longer fit in
the significand only count for the scale, or not at all behind the point. -/

/-- Takes digits into a significand as long as it stays within 64 bits, and gives back the rest. -/
def takeSignificand (n : Nat) : List Char → Nat × List Char
  | [] => (n, [])
  | c :: cs =>
    let m := n * 10 + (c.toNat - '0'.toNat)
    if m < 0x10000000000000000 then takeSignificand m cs else (n, c :: cs)

/-- The number `n` rounded to 53 significant bits, ties going to the even neighbour. -/
def roundDouble (n : Nat) : Nat :=
  let unit := 1 <<< (n.log2 + 1 - 53)
  let q := n / unit
  let r := n % unit
  (if 2 * r < unit ∨ 2 * r = unit ∧ q % 2 = 0 then q else q + 1) * unit

/-- Does the product of a significand and a power of ten, both rounded to doubles, reach the number
halfway between the largest double and the next power of two, from which on it is infinite? -/
def overflowsDouble (significand : Nat) (scale : Int) : Bool :=
  significand != 0 && 0 ≤ scale &&
    (308 < scale ||
      (0x3fffffffffffff <<< 970 : Nat) ≤
        roundDouble significand * roundDouble (Nat.pow 10 scale.toNat))

namespace Literal

/-- The significand and the power of ten that scales it. -/
def parts (l : Literal) : Nat × Int :=
  let fraction := l.fraction.getD []
  let (n, unused) := takeSignificand 0 l.whole
  let (m, ignored) := takeSignificand n fraction
  let exponent : Int := match l.exponent with
    | some (_, some '-', digits) => -natOfDigits digits
    | some (_, _, digits) => natOfDigits digits
    | none => 0
  (m, (unused.length : Int) - (fraction.length - ignored.length : Nat) + exponent)

/-- The value of the literal. -/
def value (l : Literal) : Except Fault Value :=
  match l.int? with
  | some n => .ok (.int n)
  | none =>
    let (significand, scale) := l.parts
    if overflowsDouble significand scale then .error .malformed else .ok (.decimal l.text)

end Literal

end Rv32Asm.Json

import Rv32Asm.Text.Blank
import Rv32Asm.Text.Digits

/-!
# Unsigned numerals

A numeral is a nonempty run of digits, possibly after one plus sign, below a given bound. It is
read from left to right, and the first fault met is the one reported.
-/

namespace Rv32Asm.Text

/-- Why a text is not a numeral. -/
inductive NumeralError
  | empty
  | invalidDigit
  | tooLarge
  deriving DecidableEq

/-- The explanation given to the user. -/
def NumeralError.message : NumeralError → String
  | .empty => "cannot parse integer from empty string"
  | .invalidDigit => "invalid digit found in string"
  | .tooLarge => "number too large to fit in target type"

/-- Appends a digit to a number that has to stay below `bound`. -/
def appendDigit (base bound n : Nat) (c : Char) : Except NumeralError Nat :=
  match digitValue? base c with
  | none => .error .invalidDigit
  | some d => if n * base + d < bound then .ok (n * base + d) else .error .tooLarge

/-- Reads a numeral in `base` for a number below `bound`. -/
def readNumeral (base bound : Nat) : List Char → Except NumeralError Nat
  | [] => .error .empty
  | ['+'] => .error .invalidDigit
  | '+' :: cs => cs.foldlM (appendDigit base bound) 0
  | cs => cs.foldlM (appendDigit base bound) 0

/-- Reads an address: hexadecimal after `0x` or `0X` and decimal otherwise, white space at the two
ends being ignored. -/
def readAddress (s : String) : Except NumeralError (BitVec 32) :=
  let n := match trim s.toList with
    | '0' :: 'x' :: cs => readNumeral 16 0x100000000 cs
    | '0' :: 'X' :: cs => readNumeral 16 0x100000000 cs
    | cs => readNumeral 10 0x100000000 cs
  n.map (BitVec.ofNat 32)

end Rv32Asm.Text

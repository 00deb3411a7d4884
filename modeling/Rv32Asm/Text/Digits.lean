/-!
# Digits

Numbers written as digit characters and single digits read back. Digits above nine are written
as lowercase letters and read in either case.
-/

namespace Rv32Asm.Text

/-- The last `k` digits of `n` in base `b`, leading zeros included. -/
def fixedDigits (b : Nat) : Nat → Nat → List Char
  | 0, _ => []
  | k + 1, n => fixedDigits b k (n / b) ++ [Nat.digitChar (n % b)]

@[simp] theorem length_fixedDigits (b k n : Nat) : (fixedDigits b k n).length = k := by
  induction k generalizing n with
  | zero => rfl
  | succ k ih => simp [fixedDigits, ih]

/-- Hexadecimal without leading zeros. -/
def hex (n : Nat) : String := String.ofList (Nat.toDigits 16 n)

/-- Hexadecimal in exactly `k` digits. -/
def hexFixed (k n : Nat) : String := String.ofList (fixedDigits 16 k n)

/-- Decimal without leading zeros. -/
def decimal (n : Nat) : String := String.ofList (Nat.toDigits 10 n)

/-- Decimal with a minus sign in front of negative numbers. -/
def signedDecimal (z : Int) : String :=
  if z < 0 then "-" ++ decimal z.natAbs else decimal z.natAbs

/-- The value of a hexadecimal digit of either case. -/
def hexDigitValue? (c : Char) : Option Nat :=
  if '0' ≤ c ∧ c ≤ '9' then some (c.toNat - '0'.toNat)
  else if 'a' ≤ c ∧ c ≤ 'f' then some (c.toNat - 'a'.toNat + 10)
  else if 'A' ≤ c ∧ c ≤ 'F' then some (c.toNat - 'A'.toNat + 10)
  else none

/-- The value of a digit in base `b`, for a base of at most sixteen. -/
def digitValue? (b : Nat) (c : Char) : Option Nat :=
  (hexDigitValue? c).filter (· < b)

/-- A text padded with blanks on the right to `width` characters. -/
def padRight (width : Nat) (s : String) : String :=
  s ++ String.ofList (List.replicate (width - s.length) ' ')

end Rv32Asm.Text

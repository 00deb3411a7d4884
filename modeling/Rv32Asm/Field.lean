import Rv32Asm.Text.Digits

/-!
# Fields of a machine word

A word is 32 bits. This module cuts runs of bits out of it, and packs signed and unsigned numbers
into fields of a given width, refusing the numbers that do not fit.
-/

namespace Rv32Asm

/-- A machine word, and also a byte address. -/
abbrev Word := BitVec 32

/-- How many addresses there are. -/
def addressCount : Nat := 0x100000000

/-- Why a number cannot be put into a field. -/
inductive FieldError
  /-- The number is outside the range of a two's complement field of that width. -/
  | signedRange (value : Int) (width : Nat)
  /-- The number is negative or too large for an unsigned field of that width. -/
  | unsignedRange (value : Int) (width : Nat)
  /-- The number is not a multiple of the alignment. -/
  | misaligned (value : Int) (alignment : Nat)
  deriving DecidableEq

/-- Hexadecimal with its `0x`, a negative number being shown as its 64-bit two's complement. -/
def hexBits64 (value : Int) : String :=
  "0x" ++ Text.hex (BitVec.ofInt 64 value).toNat

/-- The explanation given to the user. -/
def FieldError.message : FieldError → String
  | .signedRange value width =>
    "value " ++ Text.signedDecimal value ++ " does not fit in a " ++ Text.decimal width
      ++ "-bit signed field"
  | .unsignedRange value width =>
    "value " ++ hexBits64 value ++ " does not fit in a " ++ Text.decimal width ++ "-bit field"
  | .misaligned value alignment =>
    "value " ++ hexBits64 value ++ " is not a multiple of " ++ Text.decimal alignment

/-- A run of bits of a word, named by its highest and its lowest bit. -/
structure BitRange where
  msb : Nat
  lsb : Nat
  lsb_le_msb : lsb ≤ msb
  msb_lt : msb < 32

/-- The range with these ends, if they are in order and within a word. -/
def BitRange.ofBounds? (msb lsb : Nat) : Option BitRange :=
  if h : lsb ≤ msb ∧ msb < 32 then some ⟨msb, lsb, h.1, h.2⟩ else none

/-- How many bits the range has. -/
def BitRange.width (r : BitRange) : Nat := r.msb - r.lsb + 1

/-- The bits of the range, moved down to bit 0. -/
def BitRange.extract (r : BitRange) (word : Word) : BitVec r.width :=
  word.extractLsb' r.lsb r.width

/-- The widths that a field of a word can have. -/
abbrev FieldWidth := { w : Nat // 1 ≤ w ∧ w ≤ 32 }

/-- The field width of that many bits, if a word has room for it. -/
def FieldWidth.ofNat? (w : Nat) : Option FieldWidth :=
  if h : 1 ≤ w ∧ w ≤ 32 then some ⟨w, h⟩ else none

/-- The two's complement of `value` in `w` bits, if these bits still stand for `value`. -/
def packSigned (w : Nat) (value : Int) : Except FieldError (BitVec w) :=
  if (BitVec.ofInt w value).toInt = value then .ok (BitVec.ofInt w value)
  else .error (.signedRange value w)

/-- The signed number that the low `w` bits of a word stand for. -/
def unpackSigned (w : Nat) (bits : Word) : Int :=
  (bits.setWidth w).toInt

/-- The number `value` in binary in `w` bits, if these bits still stand for `value`. -/
def packUnsigned (w value : Nat) : Except FieldError (BitVec w) :=
  if (BitVec.ofNat w value).toNat = value then .ok (BitVec.ofNat w value)
  else .error (.unsignedRange value w)

/-- Accepts the multiples of `alignment` only. -/
def checkAligned (alignment : Nat) (value : Int) : Except FieldError Unit :=
  if value % alignment = 0 then .ok () else .error (.misaligned value alignment)

/-- The two's complement in `w` bits of an offset that counts in halfwords, its alignment being
checked before its range. -/
def packOffset (w : Nat) (value : Int) : Except FieldError (BitVec w) := do
  checkAligned 2 value
  packSigned w value

end Rv32Asm

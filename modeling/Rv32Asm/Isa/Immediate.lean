import Rv32Asm.Field

/-!
# Immediates in pieces

An instruction word holds its immediate in pieces, and each piece is named here by the bits of the
immediate that it carries. The pieces are kept in bytes, halfwords and words, so a piece can be
wider than its place in the instruction; `value` puts the pieces together as they are, and the
constructors from a number give pieces that fit their places.
-/

namespace Rv32Asm

/-- The pieces of an immediate in the five layouts. -/
inductive Immediate
  | i (imm11_0 : BitVec 16)
  | s (imm11_5 imm4_0 : BitVec 8)
  | b (imm12 imm10_5 imm4_1 imm11 : BitVec 8)
  | u (imm31_12 : BitVec 32)
  | j (imm20 : BitVec 8) (imm10_1 : BitVec 16) (imm11 imm19_12 : BitVec 8)
  deriving DecidableEq

namespace Immediate

/-! ### Cutting into pieces -/

/-- The single piece of a 12-bit immediate. -/
def ofImm12 (p : BitVec 12) : Immediate := i (p.setWidth 16)

/-- The two pieces of a 12-bit store offset. -/
def ofStore (p : BitVec 12) : Immediate :=
  s ((p.extractLsb' 5 7).setWidth 8) ((p.extractLsb' 0 5).setWidth 8)

/-- The four pieces of a 13-bit branch offset, bit 0 being left out. -/
def ofBranch (p : BitVec 13) : Immediate :=
  b ((p.extractLsb' 12 1).setWidth 8) ((p.extractLsb' 5 6).setWidth 8)
    ((p.extractLsb' 1 4).setWidth 8) ((p.extractLsb' 11 1).setWidth 8)

/-- The single piece of an upper immediate. -/
def ofUpper (p : BitVec 20) : Immediate := u (p.setWidth 32)

/-- The four pieces of a 21-bit jump offset, bit 0 being left out. -/
def ofJump (p : BitVec 21) : Immediate :=
  j ((p.extractLsb' 20 1).setWidth 8) ((p.extractLsb' 1 10).setWidth 16)
    ((p.extractLsb' 11 1).setWidth 8) ((p.extractLsb' 12 8).setWidth 8)

/-! ### From a number -/

/-- The 12-bit immediate of a register operation. -/
def ofIValue (value : Int) : Except FieldError Immediate :=
  ofImm12 <$> packSigned 12 value

/-- The 12-bit offset of a store. -/
def ofSValue (value : Int) : Except FieldError Immediate :=
  ofStore <$> packSigned 12 value

/-- The even 13-bit offset of a branch. -/
def ofBValue (value : Int) : Except FieldError Immediate :=
  ofBranch <$> packOffset 13 value

/-- The upper 20 bits of a word whose lower twelve have to be zero. -/
def packUpper (value : Word) : Except FieldError (BitVec 20) := do
  checkAligned 4096 value.toNat
  return value.extractLsb' 12 20

/-- The upper immediate of a word. -/
def ofUValue (value : Word) : Except FieldError Immediate :=
  ofUpper <$> packUpper value

/-- The even 21-bit offset of a jump. -/
def ofJValue (value : Int) : Except FieldError Immediate :=
  ofJump <$> packOffset 21 value

/-! ### Back to a number -/

/-- The number that the pieces stand for: signed, except that an upper immediate counts as the
unsigned word that it is the upper part of. -/
def value : Immediate → Int
  | i imm11_0 => unpackSigned 12 (imm11_0.setWidth 32)
  | s imm11_5 imm4_0 => unpackSigned 12 (imm11_5.setWidth 32 <<< 5 ||| imm4_0.setWidth 32)
  | b imm12 imm10_5 imm4_1 imm11 =>
    unpackSigned 13 (imm12.setWidth 32 <<< 12 ||| imm11.setWidth 32 <<< 11
      ||| imm10_5.setWidth 32 <<< 5 ||| imm4_1.setWidth 32 <<< 1)
  | u imm31_12 => (imm31_12 <<< 12).toNat
  | j imm20 imm10_1 imm11 imm19_12 =>
    unpackSigned 21 (imm20.setWidth 32 <<< 20 ||| imm19_12.setWidth 32 <<< 12
      ||| imm11.setWidth 32 <<< 11 ||| imm10_1.setWidth 32 <<< 1)

end Immediate

end Rv32Asm

import Rv32Asm.Isa.Mnemonic
import Rv32Asm.Field

/-!
# Assembly errors

The reasons for which a program cannot be assembled, and their wording.
-/

namespace Rv32Asm

/-- Why a program cannot be assembled. -/
inductive AssemblyError
  /-- A label is declared a second time; both addresses are given. -/
  | duplicateLabel (name : String) (first second : Word)
  /-- The entry at `pc` refers to a label that is not declared. -/
  | undefinedLabel (name : String) (pc : Word)
  /-- The offset from `pc` to the label cannot be encoded. -/
  | encoding (pc : Word) (cause : FieldError)
  /-- The entry at `pc` is a branch to a label with a mnemonic that is not a branch. -/
  | notABranch (mnemonic : Mnemonic) (pc : Word)
  /-- The first address is not a multiple of four. -/
  | misalignedOrigin (origin : Word)
  /-- An item lies past the last address. -/
  | addressOverflow
  deriving DecidableEq

/-- An address as messages show it. -/
def addressText (a : Word) : String := "0x" ++ Text.hexFixed 8 a.toNat

/-- The explanation given to the user. -/
def AssemblyError.message : AssemblyError → String
  | duplicateLabel name first second =>
    "label `" ++ name ++ "` defined twice (at " ++ addressText first ++ " and "
      ++ addressText second ++ ")"
  | undefinedLabel name pc =>
    "undefined label `" ++ name ++ "` referenced at " ++ addressText pc
  | encoding pc cause =>
    "cannot encode instruction at " ++ addressText pc ++ ": " ++ cause.message
  | notABranch mnemonic pc =>
    mnemonic.title ++ " at " ++ addressText pc ++ " is not a branch and cannot take a label"
  | misalignedOrigin origin =>
    "origin " ++ addressText origin ++ " is not 4-byte aligned"
  | addressOverflow => "program runs past the end of the address space"

end Rv32Asm

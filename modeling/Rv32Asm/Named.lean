/-!
# Named enumerations

Finite types whose values are listed in a fixed order and each have a name of their own.
-/

namespace Rv32Asm

/-- A finite type with its values in order and the name of each. -/
class Named (α : Type) where
  all : List α
  name : α → String

/-- The value with exactly that name. -/
def Named.ofName? {α : Type} [Named α] (s : String) : Option α :=
  (Named.all : List α).find? fun a => Named.name a == s

end Rv32Asm

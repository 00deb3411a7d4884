import Rv32Asm.Json.Reader
import Rv32Asm.Json.Writer
import Rv32Asm.Named

/-!
# JSON forms

The JSON form of a type says which values stand for its members and how a member is written.
-/

namespace Rv32Asm.Json

/-- A type that is read from JSON and written to it. -/
class Form (α : Type) where
  ofJson? : Value → Option α
  toJson : α → Value

/-- Reads a whole text as a member of the type. -/
def read {α : Type} [Form α] (s : String) : Except Fault α :=
  whole (interpreted Form.ofJson? maxDepth) s

/-- The member of the type on one line. -/
def write {α : Type} [Form α] (a : α) : String := (Form.toJson a).compact

/-- A named value is its name, or an object with the name as its only member and null for its
value. -/
def named? {α : Type} [Named α] : Value → Option α
  | .string s => Named.ofName? s
  | .object [(name, .null)] => Named.ofName? name
  | _ => none

instance {α : Type} [Named α] : Form α where
  ofJson? := named?
  toJson a := .string (Named.name a)

/-- An integer within bounds. -/
def int? (lo hi : Int) : Value → Option Int
  | .int n => if lo ≤ n ∧ n < hi then some n else none
  | _ => none

def string? : Value → Option String
  | .string s => some s
  | _ => none

/-- A member that may be left out: null counts as absent. -/
def optional? {α : Type} (interpret : Value → Option α) : Option Value → Option (Option α)
  | none | some .null => some none
  | some v => some <$> interpret v

/-- Puts a member into the slot of its name, which has to be among the expected names; the slot has
to be empty still. -/
def fillSlot (expected : List String) (slots : String → Option Value) (m : String × Value) :
    Option (String → Option Value) :=
  if m.1 ∈ expected ∧ (slots m.1).isNone then
    some fun name => if name = m.1 then some m.2 else slots name
  else none

/-- The members of an object, read one by one into slots that are empty at first. -/
def membersOf? (expected : List String) (members : List (String × Value)) :
    Option (String → Option Value) :=
  members.foldlM (fillSlot expected) fun _ => none

/-- The items of an array by the names of their places. There may be fewer of them. -/
def itemsOf? (expected : List String) (items : List Value) : Option (String → Option Value) :=
  if items.length ≤ expected.length then some fun name => (expected.zip items).lookup name
  else none

/-- The fields of a record, which is written as an object or as an array of its fields in order. -/
def fieldsOf? (expected : List String) : Value → Option (String → Option Value)
  | .object members => membersOf? expected members
  | .array items => itemsOf? expected items
  | _ => none

end Rv32Asm.Json

import Rv32Asm.Json.Form
import Rv32Asm.Statement.Basic

/-!
# Statements in JSON

A program is written as a JSON array of statements. A label is `{"label": name}` and an operation
has the members `op`, `rd`, `rs1`, `rs2`, `imm` and `target`, of which only `op` is required; both
can also be written as arrays of these members in order. A value that is readable as a label is
one, so an array of a single string always declares a label.
-/

namespace Rv32Asm

open Json (Value Form)

/-- A register is its number. -/
instance : Form Reg where
  ofJson? v := (Json.int? 0 32 v).map (BitVec.ofInt 5)
  toJson r := .int r.toNat

/-- A set of fields is its text. -/
instance : Form FieldSet where
  ofJson? v := Json.string? v >>= FieldSet.ofText?
  toJson s := .string s.text

/-- The declaration of a label. -/
structure LabelDeclaration where
  name : String

instance : Form LabelDeclaration where
  ofJson? v := do
    let fields ← Json.fieldsOf? ["label"] v
    return ⟨← Json.string? (← fields "label")⟩
  toJson d := .object [("label", .string d.name)]

/-- The members of an operation in order. -/
def Operation.fieldNames : List String := ["op", "rd", "rs1", "rs2", "imm", "target"]

/-- A signed number of 64 bits. -/
def immediateOfJson? : Value → Option Int := Json.int? (-0x8000000000000000) 0x8000000000000000

instance : Form Operation where
  ofJson? v := do
    let fields ← Json.fieldsOf? Operation.fieldNames v
    return {
      op := ← Form.ofJson? (← fields "op")
      rd := ← Json.optional? Form.ofJson? (fields "rd")
      rs1 := ← Json.optional? Form.ofJson? (fields "rs1")
      rs2 := ← Json.optional? Form.ofJson? (fields "rs2")
      imm := ← Json.optional? immediateOfJson? (fields "imm")
      target := ← Json.optional? Json.string? (fields "target") }
  toJson st :=
    let member {α : Type} (name : String) (form : α → Value) (a : Option α) :=
      (a.map fun a => (name, form a)).toList
    .object (("op", Form.toJson st.op) :: member "rd" Form.toJson st.rd
      ++ member "rs1" Form.toJson st.rs1 ++ member "rs2" Form.toJson st.rs2
      ++ member "imm" Value.int st.imm ++ member "target" Value.string st.target)

instance : Form Statement where
  ofJson? v :=
    ((Form.ofJson? v : Option LabelDeclaration).map fun d => .label d.name)
      <|> (Form.ofJson? v : Option Operation).map .operation
  toJson
    | .label name => Form.toJson (LabelDeclaration.mk name)
    | .operation st => Form.toJson st

/-- Statements as a JSON array, each interpreted as soon as it is read. -/
def Statement.readAll (s : String) : Except Json.Fault (List Statement) :=
  Json.whole (Json.interpretedArray Form.ofJson?) s

/-- Statements as a JSON array on one line. -/
def Statement.writeAll (sts : List Statement) : String :=
  (Value.array (sts.map Form.toJson)).compact

/-- Why a text is not a program. -/
inductive ProgramError
  | json (fault : Json.Fault)
  | statement (cause : StatementError)
  deriving DecidableEq

/-- Reads a program. Faults of the text come before errors of its operations. -/
def Program.read (s : String) : Except ProgramError Program := do
  let sts ← (Statement.readAll s).mapError .json
  (Program.ofStatements sts).mapError .statement

end Rv32Asm

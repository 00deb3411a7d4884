import Mathlib
import Rv32Asm.Proofs.Describe
import Rv32Asm.Proofs.JsonMembers
import Rv32Asm.Proofs.JsonValue
import Rv32Asm.Statement.Json

/-!
# Statements read back

Statements written as JSON on one line are read back unchanged, so the program that is read from the
text is the one of the statements, and so is the error if they have no program. The members of a
record that are left out are described by `present`: the members that are there are found under
their names, and the others are not.
-/

namespace Rv32Asm

namespace Json

/-! ### Members that may be left out -/

/-- The members of a record that are there. -/
def present (fields : List (String × Option Value)) : List (String × Value) :=
  fields.flatMap fun f => (f.2.map fun v => (f.1, v)).toList

theorem names_present_sublist (fields : List (String × Option Value)) :
    ((present fields).map (·.1)).Sublist (fields.map (·.1)) := by
  induction fields with
  | nil => simp [present]
  | cons f fields ih =>
    obtain ⟨name, v | v⟩ := f
    · exact ih.cons name
    · exact ih.cons_cons name

theorem lookup_present_of_not_mem {fields : List (String × Option Value)} {name : String}
    (h : name ∉ fields.map (·.1)) : (present fields).lookup name = none :=
  lookup_eq_none_of_not_mem fun hmem => h ((names_present_sublist fields).subset hmem)

theorem lookup_present {fields : List (String × Option Value)} (h : (fields.map (·.1)).Nodup)
    (name : String) : (present fields).lookup name = (fields.lookup name).join := by
  induction fields with
  | nil => rfl
  | cons f fields ih =>
    obtain ⟨hfresh, hnodup⟩ := List.nodup_cons.mp h
    have hrest := ih hnodup
    obtain ⟨first, v⟩ := f
    by_cases hname : name = first
    · subst hname
      rw [List.lookup_cons_self]
      cases v with
      | none =>
        change (present fields).lookup name = none
        exact lookup_present_of_not_mem hfresh
      | some v => exact List.lookup_cons_self
    · have hbeq : (name == first) = false := by simpa using hname
      rw [List.lookup_cons, hbeq]
      cases v with
      | none => exact hrest
      | some v =>
        change ((first, v) :: present fields).lookup name = _
        rw [List.lookup_cons, hbeq]
        exact hrest

/-- The members that are there are found under the names of a record. -/
theorem membersOf?_present {fields : List (String × Option Value)} (h : (fields.map (·.1)).Nodup) :
    membersOf? (fields.map (·.1)) (present fields) =
      some fun name => (fields.lookup name).join := by
  have hsublist := names_present_sublist fields
  have hmem : ∀ m ∈ present fields, m.1 ∈ fields.map (·.1) := by
    intro m hm
    exact hsublist.subset (List.mem_map_of_mem hm)
  exact membersOf?_eq_some_iff.mpr ⟨⟨hmem, h.sublist hsublist⟩, funext (lookup_present h)⟩

theorem fits_present {fields : List (String × Option Value)} {depth : Nat}
    (h : ∀ f ∈ fields, ∀ v ∈ f.2, Fits depth v) : Fits (depth + 1) (.object (present fields)) := by
  apply Fits.object
  intro m hm
  obtain ⟨f, hf, hmem⟩ := List.mem_flatMap.mp hm
  obtain ⟨v, hv, rfl⟩ := Option.map_eq_some_iff.mp (Option.mem_toList.mp hmem)
  exact h f hf v hv

theorem optional?_map {α : Type} {interpret : Value → Option α} {form : α → Value} {a : Option α}
    (h : ∀ x ∈ a, interpret (form x) = some x ∧ form x ≠ .null) :
    optional? interpret (a.map form) = some a := by
  cases a with
  | none => rfl
  | some x =>
    obtain ⟨hx, hnull⟩ := h x rfl
    simp [optional?, hx]

end Json

open Json (Value Form Fits Reads)

/-! ### Forms of operands -/

theorem Mnemonic.ofJson?_toJson (m : Mnemonic) : Form.ofJson? (Form.toJson m) = some m := by
  have hall : ∀ m ∈ (Named.all : List Mnemonic), Named.ofName? (Named.name m) = some m := by
    decide +kernel
  exact hall m (Mnemonic.mem_all m)

theorem Reg.ofJson?_toJson (r : Reg) : Form.ofJson? (Form.toJson r) = some r := by
  have hlt := r.isLt
  change (Json.int? 0 32 (.int r.toNat)).map (BitVec.ofInt 5) = some r
  rw [Json.int?, if_pos (by omega), Option.map_some, BitVec.ofInt_natCast, BitVec.ofNat_toNat,
    BitVec.setWidth_eq]

theorem immediateOfJson?_int {value : Int} (hlow : -2 ^ 63 ≤ value) (hhigh : value < 2 ^ 63) :
    immediateOfJson? (.int value) = some value := by
  simp [immediateOfJson?, Json.int?]
  omega

/-! ### Forms of statements -/

/-- The immediate, if there is one, is a signed number of 64 bits. -/
def Operation.Representable (st : Operation) : Prop :=
  ∀ value ∈ st.imm, -2 ^ 63 ≤ value ∧ value < 2 ^ 63

/-- The immediate of the statement, if there is one, is a signed number of 64 bits. -/
def Statement.Representable : Statement → Prop
  | label _ => True
  | operation st => st.Representable

namespace Operation

/-- The members of an operation, of which some may be left out. -/
def fields (st : Operation) : List (String × Option Value) :=
  [("op", some (Form.toJson st.op)), ("rd", st.rd.map Form.toJson),
    ("rs1", st.rs1.map Form.toJson), ("rs2", st.rs2.map Form.toJson), ("imm", st.imm.map .int),
    ("target", st.target.map .string)]

theorem toJson_eq (st : Operation) : Form.toJson st = .object (Json.present st.fields) := by
  simp [Form.toJson, Json.present, fields, Function.comp_def]

theorem ofJson?_toJson {st : Operation} (h : st.Representable) :
    Form.ofJson? (Form.toJson st) = some st := by
  have hfields : Json.fieldsOf? fieldNames (Form.toJson st) =
      some fun name => (st.fields.lookup name).join := by
    have hnodup : (st.fields.map (·.1)).Nodup := by simp [fields]
    rw [toJson_eq]
    exact Json.membersOf?_present hnodup
  have hop : (st.fields.lookup "op").join = some (Form.toJson st.op) := rfl
  have hrd : (st.fields.lookup "rd").join = st.rd.map Form.toJson := rfl
  have hrs1 : (st.fields.lookup "rs1").join = st.rs1.map Form.toJson := rfl
  have hrs2 : (st.fields.lookup "rs2").join = st.rs2.map Form.toJson := rfl
  have himm : (st.fields.lookup "imm").join = st.imm.map .int := rfl
  have htarget : (st.fields.lookup "target").join = st.target.map .string := rfl
  have hreg : ∀ r : Option Reg, Json.optional? Form.ofJson? (r.map Form.toJson) = some r :=
    fun r => Json.optional?_map fun x _ => ⟨Reg.ofJson?_toJson x, nofun⟩
  have hvalue : Json.optional? immediateOfJson? (st.imm.map .int) = some st.imm :=
    Json.optional?_map fun value hvalue =>
      ⟨immediateOfJson?_int (h value hvalue).1 (h value hvalue).2, nofun⟩
  have hlabel : Json.optional? Json.string? (st.target.map .string) = some st.target :=
    Json.optional?_map fun _ _ => ⟨rfl, nofun⟩
  change (Json.fieldsOf? fieldNames (Form.toJson st) >>= fun fields => _) = _
  rw [hfields]
  simp only [Option.bind_eq_bind, Option.bind_some, hop, hrd, hrs1, hrs2, himm, htarget, hreg,
    hvalue, hlabel, Mnemonic.ofJson?_toJson]
  rfl

/-- An operation is not taken for a label. -/
theorem label_ofJson?_toJson (st : Operation) :
    (Form.ofJson? (Form.toJson st) : Option LabelDeclaration) = none := by
  have hmember : ("op", Form.toJson st.op) ∈ Json.present st.fields := List.mem_cons_self
  have hfields : Json.fieldsOf? ["label"] (Form.toJson st) = none := by
    rw [toJson_eq]
    exact Json.membersOf?_of_not_mem hmember (by simp)
  change (Json.fieldsOf? ["label"] (Form.toJson st) >>= fun fields => _) = none
  rw [hfields]
  rfl

theorem fits_toJson {st : Operation} (h : st.Representable) (depth : Nat) :
    Fits (depth + 1) (Form.toJson st) := by
  have hreg : ∀ r : Option Reg, ∀ v ∈ r.map Form.toJson, Fits depth v := by
    intro r v hv
    obtain ⟨r, -, rfl⟩ := Option.map_eq_some_iff.mp hv
    have hlt := r.isLt
    exact .int depth (by omega) (by omega)
  rw [toJson_eq]
  apply Json.fits_present
  simp only [fields, List.forall_mem_cons]
  refine ⟨?_, hreg _, hreg _, hreg _, ?_, ?_, List.forall_mem_nil _⟩
  · rintro v ⟨rfl⟩
    exact .string depth _
  · intro v hv
    obtain ⟨value, hvalue, rfl⟩ := Option.map_eq_some_iff.mp hv
    have hrange := h value hvalue
    exact .int depth hrange.1 (by omega)
  · intro v hv
    obtain ⟨target, -, rfl⟩ := Option.map_eq_some_iff.mp hv
    exact .string depth target

end Operation

namespace Statement

/-- A label is not taken for an operation. -/
theorem operation_ofJson?_toJson (name : String) :
    (Form.ofJson? (Form.toJson (label name)) : Option Operation) = none := by
  have hfields : Json.fieldsOf? Operation.fieldNames (Form.toJson (label name)) = none :=
    Json.membersOf?_of_not_mem List.mem_cons_self (by simp [Operation.fieldNames])
  change (Json.fieldsOf? Operation.fieldNames (Form.toJson (label name)) >>= fun fields => _) = none
  rw [hfields]
  rfl

theorem ofJson?_toJson {st : Statement} (h : st.Representable) :
    Form.ofJson? (Form.toJson st) = some st := by
  cases st with
  | label name => rfl
  | operation op =>
    have hlabel := Operation.label_ofJson?_toJson op
    have hop := Operation.ofJson?_toJson h
    change ((Form.ofJson? (Form.toJson op) : Option LabelDeclaration).map _ <|>
      (Form.ofJson? (Form.toJson op) : Option Operation).map operation) = _
    rw [hlabel, hop]
    rfl

theorem fits_toJson {st : Statement} (h : st.Representable) (depth : Nat) :
    Fits (depth + 1) (Form.toJson st) := by
  cases st with
  | label name =>
    apply Fits.object
    intro m hm
    rw [List.mem_singleton.mp hm]
    exact .string depth name
  | operation op => exact Operation.fits_toJson h depth

/-- Statements are read back from their text. -/
theorem readAll_writeAll {sts : List Statement} (h : ∀ st ∈ sts, st.Representable) :
    readAll (writeAll sts) = .ok sts := by
  apply Reads.whole
  rw [writeAll, Json.toList_compact_array, List.map_map]
  apply Json.reads_interpretedArray Json.blank_nil Json.blank_nil Json.blank_nil
  rw [List.forall₂_map_left_iff, List.forall₂_same]
  intro st hst
  have hfits := fits_toJson (h st hst) (Json.maxDepth - 2)
  exact hfits.reads_compact.interpreted (ofJson?_toJson (h st hst))

end Statement

namespace Program

/-- A text that statements are written as is read as the program of the statements, or refused with
the error of the first that is not well formed. It is never refused as a text, and neither kind of
statement is taken for the other. -/
theorem read_written_statements {sts : List Statement} (h : ∀ st ∈ sts, st.Representable) :
    Statement.readAll (Statement.writeAll sts) = .ok sts ∧
    read (Statement.writeAll sts) = (ofStatements sts).mapError .statement ∧
    (∀ fault, read (Statement.writeAll sts) ≠ .error (.json fault)) ∧
    ∀ st ∈ sts, match st with
      | .label _ => (Form.ofJson? (Form.toJson st) : Option Operation) = none
      | .operation _ => (Form.ofJson? (Form.toJson st) : Option LabelDeclaration) = none := by
  have hstatements := Statement.readAll_writeAll h
  have hread : read (Statement.writeAll sts) = (ofStatements sts).mapError .statement := by
    rw [read, hstatements]
    rfl
  refine ⟨hstatements, hread, ?_, ?_⟩
  · intro fault
    rw [hread]
    cases ofStatements sts with
    | ok p => nofun
    | error cause => nofun
  · intro st _
    cases st with
    | label name => exact Statement.operation_ofJson?_toJson name
    | operation op => exact op.label_ofJson?_toJson

/-- A label with characters that have to be escaped, the least immediate, and an operation without
its register. -/
def oddStatements : List Statement :=
  [.label "\"\\\n\x01é😀", .operation ⟨.imm .addi, none, some 31, none, some (-2 ^ 63), none⟩]

theorem read_oddStatements :
    (∀ st ∈ oddStatements, st.Representable) ∧
    Statement.readAll (Statement.writeAll oddStatements) = .ok oddStatements ∧
    read (Statement.writeAll oddStatements) = .error (.statement (.missing (.imm .addi) .rd)) := by
  have hrepresentable : ∀ st ∈ oddStatements, st.Representable := by
    intro st hst
    simp only [oddStatements, List.mem_cons, List.not_mem_nil, or_false] at hst
    rcases hst with rfl | rfl
    · trivial
    · intro value hvalue
      cases hvalue
      omega
  obtain ⟨hstatements, hread, -⟩ := read_written_statements hrepresentable
  refine ⟨hrepresentable, hstatements, ?_⟩
  rw [hread]
  rfl

end Program

end Rv32Asm

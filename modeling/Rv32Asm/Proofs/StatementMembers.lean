import Mathlib
import Rv32Asm.Proofs.StatementText

/-!
# Statements as objects

What an object is read as is decided by the values that its members have by name. So the order of
the members plays no part, an operand that is null counts as one that is left out, and no object is
both a label and an operation. An object that repeats a name or has a member that its kind of
statement does not have is refused, and so is every program text with such an object in it: a text
that is an array is read as the statements that its items are read as (`readAll_of_parse`).
-/

namespace Rv32Asm

namespace Json

/-! ### Steps of the loop over items -/

section Items

variable {α : Type} {item : Reader α} {close : Char} {fuel cs behind behind' : List Char} {a : α}

theorem itemLoop_of_error {e : Fault} (h : item cs = .error e) (f : Char) (before : List α) :
    itemLoop close item (f :: fuel) before cs = .error e := by
  rw [itemLoop, h]

theorem itemLoop_of_close (h : item cs = .ok (a, behind))
    (hbehind : skipSpace behind = close :: behind') (f : Char) (before : List α) :
    itemLoop close item (f :: fuel) before cs = .ok ((a :: before).reverse, behind') := by
  rw [itemLoop, h]
  simp only [hbehind, if_true]

theorem itemLoop_of_comma (h : item cs = .ok (a, behind))
    (hbehind : skipSpace behind = ',' :: behind') (hclose : ',' ≠ close) (f : Char)
    (before : List α) :
    itemLoop close item (f :: fuel) before cs = itemLoop close item fuel (a :: before) behind' := by
  rw [itemLoop, h]
  simp only [hbehind, if_neg hclose, if_true]

/-- What a loop that comes to an end has done first: read an item, and met the closing bracket or a
comma behind it. -/
theorem exists_item_of_itemLoop {f : Char} {before as : List α} {rest : List Char}
    (h : itemLoop close item (f :: fuel) before cs = .ok (as, rest)) :
    ∃ a behind behind', item cs = .ok (a, behind) ∧
      (skipSpace behind = close :: behind' ∧ as = (a :: before).reverse ∧ rest = behind' ∨
        skipSpace behind = ',' :: behind' ∧ ',' ≠ close ∧
          itemLoop close item fuel (a :: before) behind' = .ok (as, rest)) := by
  unfold itemLoop at h
  split at h
  · cases h
  · next a behind hitem =>
    refine ⟨a, behind, ?_⟩
    split at h
    · cases h
    · next c behind' hbehind =>
      refine ⟨behind', hitem, ?_⟩
      split at h
      · next hc =>
        cases h
        exact .inl ⟨by rw [hbehind, hc], rfl, rfl⟩
      · next hc =>
        split at h
        · next hcomma =>
          subst hcomma
          exact .inr ⟨hbehind, hc, h⟩
        · cases h

end Items

/-! ### Arrays of interpreted values -/

section Interpreted

variable {α : Type} {interpret : Value → Option α} {depth : Nat} {close : Char}

theorem interpreted_of_none {cs rest : List Char} {v : Value} (h : value depth cs = .ok (v, rest))
    (hv : interpret v = none) : interpreted interpret depth cs = .error .mismatch := by
  simp [interpreted, h, bind, Except.bind, hv]

theorem interpreted_of_some {cs rest : List Char} {v : Value} {a : α}
    (h : value depth cs = .ok (v, rest)) (ha : interpret v = some a) :
    interpreted interpret depth cs = .ok (a, rest) := by
  simp [interpreted, h, bind, Except.bind, pure, Except.pure, ha]

/-- What becomes of items that are read as values: all of them are interpreted, or they are of the
wrong kind. -/
def interpretItems (interpret : Value → Option α) (vs : List Value) : Except Fault (List α) :=
  match vs.mapM interpret with
  | some as => .ok as
  | none => .error .mismatch

theorem interpretItems_cons_of_none {v : Value} (h : interpret v = none) (vs : List Value) :
    interpretItems interpret (v :: vs) = .error .mismatch := by
  simp [interpretItems, h]

theorem interpretItems_cons_of_some {v : Value} {a : α} (h : interpret v = some a)
    (vs : List Value) :
    interpretItems interpret (v :: vs) = (a :: ·) <$> interpretItems interpret vs := by
  unfold interpretItems
  rw [List.mapM_cons, h]
  cases vs.mapM interpret <;> rfl

theorem interpretItems_of_mem {v : Value} (h : interpret v = none) {vs : List Value}
    (hv : v ∈ vs) : interpretItems interpret vs = .error .mismatch := by
  induction hv with
  | head vs => exact interpretItems_cons_of_none h vs
  | @tail w vs _ ih =>
    cases hw : interpret w with
    | none => exact interpretItems_cons_of_none hw vs
    | some a =>
      rw [interpretItems_cons_of_some hw, ih]
      rfl

theorem interpretItems_congr {v v' : Value} (h : interpret v' = interpret v)
    (before after : List Value) :
    interpretItems interpret (before ++ v' :: after) =
      interpretItems interpret (before ++ v :: after) := by
  unfold interpretItems
  rw [List.mapM_append, List.mapM_append, List.mapM_cons, List.mapM_cons, h]

variable (interpret) in
/-- The loop that interprets each item at once goes the way of the loop that reads values, up to
the first item of the wrong kind. -/
theorem itemLoop_interpreted {fuel cs rest : List Char} {before vs : List Value}
    (h : itemLoop close (value depth) fuel before cs = .ok (vs, rest)) :
    ∃ new, vs = before.reverse ++ new ∧
      ∀ before' : List α, itemLoop close (interpreted interpret depth) fuel before' cs =
        (fun as => (before'.reverse ++ as, rest)) <$> interpretItems interpret new := by
  induction fuel generalizing before cs with
  | nil => cases h
  | cons f fuel ih =>
    obtain ⟨v, behind, behind', hv, hlast | hmore⟩ := exists_item_of_itemLoop h
    · obtain ⟨hbehind, rfl, rfl⟩ := hlast
      refine ⟨[v], by simp, ?_⟩
      intro before'
      cases ha : interpret v with
      | none =>
        rw [itemLoop_of_error (interpreted_of_none hv ha), interpretItems_cons_of_none ha]
        rfl
      | some a =>
        rw [itemLoop_of_close (interpreted_of_some hv ha) hbehind, interpretItems_cons_of_some ha,
          List.reverse_cons]
        rfl
    · obtain ⟨hbehind, hclose, hloop⟩ := hmore
      obtain ⟨new, rfl, hnew⟩ := ih hloop
      refine ⟨v :: new, by simp, ?_⟩
      intro before'
      cases ha : interpret v with
      | none =>
        rw [itemLoop_of_error (interpreted_of_none hv ha), interpretItems_cons_of_none ha]
        rfl
      | some a =>
        rw [itemLoop_of_comma (interpreted_of_some hv ha) hbehind hclose, hnew,
          interpretItems_cons_of_some ha, Functor.map_map]
        simp

theorem items_interpreted {cs rest : List Char} {vs : List Value}
    (h : items close (value depth) cs = .ok (vs, rest)) :
    items close (interpreted interpret depth) cs =
      (fun as => (as, rest)) <$> interpretItems interpret vs := by
  unfold items at h ⊢
  cases hcs : skipSpace cs with
  | nil => simp [hcs] at h
  | cons c behind =>
    simp only [hcs] at h ⊢
    by_cases hc : c = close
    · rw [if_pos hc] at h ⊢
      cases h
      rfl
    · rw [if_neg hc] at h ⊢
      obtain ⟨new, rfl, hnew⟩ := itemLoop_interpreted interpret h
      rw [hnew]
      rfl

theorem literal_value_ne_array {l : Literal} {vs : List Value} : l.value ≠ .ok (.array vs) := by
  intro h
  unfold Literal.value at h
  split at h
  · cases h
  · dsimp only at h
    split at h
    · cases h
    · cases h

theorem word_ne_array {v : Value} (hv : ∀ vs, v ≠ .array vs) {ws cs rest : List Char}
    {vs : List Value} : word v ws cs ≠ .ok (.array vs, rest) := by
  induction ws generalizing cs with
  | nil => simp [word, hv]
  | cons w ws ih =>
    cases cs with
    | nil => simp [word]
    | cons c cs =>
      by_cases hc : c = w
      · simp [word, hc, ih]
      · simp [word, hc]

theorem scalar_ne_array {cs rest : List Char} {vs : List Value} :
    scalar cs ≠ .ok (.array vs, rest) := by
  intro h
  unfold scalar at h
  split at h
  · cases h
  · exact word_ne_array (by simp) h
  · exact word_ne_array (by simp) h
  · exact word_ne_array (by simp) h
  · obtain ⟨p, -, hp⟩ := map_eq_ok.mp h
    cases hp
  · split at h
    · obtain ⟨p, -, hp⟩ := bind_eq_ok.mp h
      obtain ⟨v, hv, hp⟩ := bind_eq_ok.mp hp
      cases hp
      exact literal_value_ne_array hv
    · cases h

/-- An array is read behind its opening bracket, and nothing else is read as an array. -/
theorem items_of_value_array {cs rest : List Char} {vs : List Value}
    (h : value (depth + 1) cs = .ok (.array vs, rest)) :
    ∃ behind, skipSpace cs = '[' :: behind ∧ items ']' (value depth) behind = .ok (vs, rest) := by
  unfold value at h
  split at h
  · next behind hcs =>
    obtain ⟨p, hitems, hp⟩ := map_eq_ok.mp h
    cases hp
    exact ⟨behind, hcs, hitems⟩
  · obtain ⟨p, -, hp⟩ := map_eq_ok.mp h
    cases hp
  · exact absurd h scalar_ne_array

theorem whole_eq_ok_iff {reader : Reader α} {s : String} {a : α} :
    whole reader s = .ok a ↔
      ∃ rest, reader s.toList = .ok (a, rest) ∧ (skipSpace rest).isEmpty = true := by
  have hend : ∀ p : α × List Char,
      ((if (skipSpace p.2).isEmpty = true then pure p.1 else .error .malformed) :
          Except Fault α) = .ok a ↔
        p.1 = a ∧ (skipSpace p.2).isEmpty = true := by
    intro p
    by_cases hempty : (skipSpace p.2).isEmpty = true
    · simp [hempty, pure, Except.pure]
    · simp [hempty]
  refine bind_eq_ok.trans ⟨?_, ?_⟩
  · intro h
    obtain ⟨⟨b, rest⟩, hread, hrest⟩ := h
    obtain ⟨rfl, hempty⟩ := (hend (b, rest)).mp hrest
    exact ⟨rest, hread, hempty⟩
  · intro h
    obtain ⟨rest, hread, hempty⟩ := h
    exact ⟨(a, rest), hread, (hend (a, rest)).mpr ⟨rfl, hempty⟩⟩

/-- A text that is an array of values is read item by item as what the values are interpreted as. -/
theorem whole_interpretedArray_of_parse {s : String} {vs : List Value}
    (h : parse s = .ok (.array vs)) :
    whole (interpretedArray interpret) s = interpretItems interpret vs := by
  obtain ⟨rest, hvalue, hempty⟩ := whole_eq_ok_iff.mp h
  obtain ⟨behind, hcs, hitems⟩ := items_of_value_array hvalue
  have hread : interpretedArray interpret s.toList =
      (fun as => (as, rest)) <$> interpretItems interpret vs := by
    rw [interpretedArray, hcs]
    exact items_interpreted hitems
  cases hall : interpretItems interpret vs with
  | error e =>
    unfold whole
    rw [hread, hall]
    rfl
  | ok as =>
    rw [hall] at hread
    exact whole_eq_ok_iff.mpr ⟨rest, hread, hempty⟩

end Interpreted

end Json

open Json (Value Form)

/-! ### Statements by their members -/

namespace Operation

/-- The operation that fields stand for. -/
def ofFields? (fields : String → Option Value) : Option Operation := do
  return {
    op := ← Form.ofJson? (← fields "op")
    rd := ← Json.optional? Form.ofJson? (fields "rd")
    rs1 := ← Json.optional? Form.ofJson? (fields "rs1")
    rs2 := ← Json.optional? Form.ofJson? (fields "rs2")
    imm := ← Json.optional? immediateOfJson? (fields "imm")
    target := ← Json.optional? Json.string? (fields "target") }

theorem ofJson?_object (members : List (String × Value)) :
    (Form.ofJson? (.object members) : Option Operation) =
      (Json.membersOf? fieldNames members).bind ofFields? := rfl

/-- Fields with the same mnemonic whose operands are read alike stand for the same operation. -/
theorem ofFields?_congr {fields fields' : String → Option Value} (hop : fields "op" = fields' "op")
    (h : ∀ {α : Type} (interpret : Value → Option α) (operand : Operand),
      Json.optional? interpret (fields operand.name) =
        Json.optional? interpret (fields' operand.name)) :
    ofFields? fields = ofFields? fields' := by
  have hrd := h Form.ofJson? (α := Reg) .rd
  have hrs1 := h Form.ofJson? (α := Reg) .rs1
  have hrs2 := h Form.ofJson? (α := Reg) .rs2
  have himm := h immediateOfJson? .imm
  have htarget := h Json.string? .target
  simp only [Operand.name] at hrd hrs1 hrs2 himm htarget
  unfold ofFields?
  rw [hop, hrd, hrs1, hrs2, himm, htarget]

/-- An operand that is null is an operand that is left out. -/
theorem ofFields?_of_null {fields : String → Option Value} {operand : Operand}
    (h : fields operand.name = none) :
    ofFields? (fun name => if name = operand.name then some .null else fields name) =
      ofFields? fields := by
  apply ofFields?_congr
  · have hne : "op" ≠ operand.name := by
      cases operand <;> simp [Operand.name]
    rw [if_neg hne]
  · intro α interpret other
    by_cases hname : other.name = operand.name
    · rw [if_pos hname, hname, h]
      rfl
    · rw [if_neg hname]

theorem name_mem_fieldNames (operand : Operand) : operand.name ∈ fieldNames := by
  cases operand <;> simp [Operand.name, fieldNames]

theorem ofJson?_cons_null {members : List (String × Value)} {operand : Operand}
    (h : operand.name ∉ members.map (·.1)) :
    (Form.ofJson? (.object ((operand.name, .null) :: members)) : Option Operation) =
      Form.ofJson? (.object members) := by
  rw [ofJson?_object, ofJson?_object, Json.membersOf?_cons (name_mem_fieldNames operand) h]
  cases hfields : Json.membersOf? fieldNames members with
  | none => rfl
  | some fields =>
    obtain ⟨-, rfl⟩ := Json.membersOf?_eq_some_iff.mp hfields
    have hnone := lookup_eq_none_of_not_mem h
    show ofFields? (fun name => if name = operand.name then some .null else members.lookup name) = _
    exact ofFields?_of_null hnone

end Operation

namespace LabelDeclaration

theorem ofJson?_object (members : List (String × Value)) :
    (Form.ofJson? (.object members) : Option LabelDeclaration) =
      (Json.membersOf? ["label"] members).bind fun fields =>
        ((fields "label").bind Json.string?).map LabelDeclaration.mk := by
  change (Json.membersOf? ["label"] members >>= fun fields => _) = _
  cases Json.membersOf? ["label"] members with
  | none => rfl
  | some fields =>
    cases h : fields "label" with
    | none => simp [h]
    | some v => cases hv : Json.string? v <;> simp [h, hv]

end LabelDeclaration

namespace Statement

/-- The members all belong to one kind of statement: to a label, or to an operation. -/
def OwnMembers (members : List (String × Value)) : Prop :=
  (∀ m ∈ members, m.1 ∈ ["label"]) ∨ ∀ m ∈ members, m.1 ∈ Operation.fieldNames

theorem ofJson?_object (members : List (String × Value)) :
    (Form.ofJson? (.object members) : Option Statement) =
      (((Form.ofJson? (.object members) : Option LabelDeclaration).map fun d => .label d.name) <|>
        (Form.ofJson? (.object members) : Option Operation).map .operation) := rfl

theorem ofJson?_of_perm {members members' : List (String × Value)} (h : members.Perm members') :
    (Form.ofJson? (.object members') : Option Statement) = Form.ofJson? (.object members) := by
  rw [ofJson?_object, ofJson?_object, LabelDeclaration.ofJson?_object,
    LabelDeclaration.ofJson?_object, Operation.ofJson?_object, Operation.ofJson?_object,
    Json.membersOf?_of_perm h, Json.membersOf?_of_perm h]

/-- An object with a mnemonic is not a label. -/
theorem label_ofJson?_of_op {members : List (String × Value)} (h : "op" ∈ members.map (·.1)) :
    (Form.ofJson? (.object members) : Option LabelDeclaration) = none := by
  obtain ⟨m, hm, hname⟩ := List.mem_map.mp h
  have hfields : Json.membersOf? ["label"] members = none :=
    Json.membersOf?_of_not_mem hm (by simp [hname])
  rw [LabelDeclaration.ofJson?_object, hfields]
  rfl

theorem ofJson?_cons_null {members : List (String × Value)} {operand : Operand}
    (h : operand.name ∉ members.map (·.1)) (hop : "op" ∈ members.map (·.1)) :
    (Form.ofJson? (.object ((operand.name, .null) :: members)) : Option Statement) =
      Form.ofJson? (.object members) := by
  have hop' : "op" ∈ ((operand.name, Value.null) :: members).map (·.1) := List.mem_cons_of_mem _ hop
  rw [ofJson?_object, ofJson?_object, label_ofJson?_of_op hop, label_ofJson?_of_op hop',
    Operation.ofJson?_cons_null h]

/-- No object is both a label and an operation. -/
theorem label_or_operation_eq_none (members : List (String × Value)) :
    (Form.ofJson? (.object members) : Option LabelDeclaration) = none ∨
      (Form.ofJson? (.object members) : Option Operation) = none := by
  by_cases hlabel : "label" ∈ members.map (·.1)
  · obtain ⟨m, hm, hname⟩ := List.mem_map.mp hlabel
    have hfields : Json.membersOf? Operation.fieldNames members = none :=
      Json.membersOf?_of_not_mem hm (by simp [hname, Operation.fieldNames])
    right
    rw [Operation.ofJson?_object, hfields]
    rfl
  · left
    rw [LabelDeclaration.ofJson?_object]
    cases hfields : Json.membersOf? ["label"] members with
    | none => rfl
    | some fields =>
      obtain ⟨-, rfl⟩ := Json.membersOf?_eq_some_iff.mp hfields
      have hnone : members.lookup "label" = none := lookup_eq_none_of_not_mem hlabel
      simp [hnone]

/-- An object that repeats a name, or has members that do not belong together, is no statement. -/
theorem ofJson?_eq_none {members : List (String × Value)}
    (h : ¬ (members.map (·.1)).Nodup ∨ ¬ OwnMembers members) :
    (Form.ofJson? (.object members) : Option Statement) = none := by
  have hnone : ∀ expected, ((∀ m ∈ members, m.1 ∈ expected) → OwnMembers members) →
      Json.membersOf? expected members = none := by
    intro expected hown
    apply Json.membersOf?_eq_none
    intro hok
    rcases h with hrepeated | hforeign
    · exact hrepeated hok.2
    · exact hforeign (hown hok.1)
  rw [ofJson?_object, LabelDeclaration.ofJson?_object, Operation.ofJson?_object,
    hnone _ .inl, hnone _ .inr]
  rfl

/-- A text that is an array is read as the statements that its items are. -/
theorem readAll_of_parse {text : String} {vs : List Value} (h : Json.parse text = .ok (.array vs)) :
    readAll text = Json.interpretItems Form.ofJson? vs :=
  Json.whole_interpretedArray_of_parse h

theorem read_of_mem {text : String} {vs : List Value} {v : Value}
    (h : Json.parse text = .ok (.array vs)) (hv : v ∈ vs)
    (hnone : (Form.ofJson? v : Option Statement) = none) :
    Program.read text = .error (.json .mismatch) := by
  rw [Program.read, readAll_of_parse h, Json.interpretItems_of_mem hnone hv]
  rfl

/-- How an object is read depends on its members by name. A reordering of the members is read as the
same statement, or refused like them; with a mnemonic among the members, an operand that is missing
can be put in as null; no object is read both as a label and as an operation; and an object that
repeats a name or has a member foreign to its kind of statement is refused, together with every
program text that has it for an item. Any other program text stays the same program if an item is
replaced by one that is read alike. -/
theorem reading_by_members (members : List (String × Value)) :
    (∀ members', members.Perm members' →
      (Form.ofJson? (.object members') : Option Statement) = Form.ofJson? (.object members)) ∧
    (∀ operand : Operand, operand.name ∉ members.map (·.1) → "op" ∈ members.map (·.1) →
      (Form.ofJson? (.object ((operand.name, .null) :: members)) : Option Statement) =
        Form.ofJson? (.object members)) ∧
    ((Form.ofJson? (.object members) : Option LabelDeclaration) = none ∨
      (Form.ofJson? (.object members) : Option Operation) = none) ∧
    (¬ (members.map (·.1)).Nodup ∨ ¬ OwnMembers members →
      (Form.ofJson? (.object members) : Option Statement) = none ∧
      ∀ text vs, Json.parse text = .ok (.array vs) → .object members ∈ vs →
        Program.read text = .error (.json .mismatch)) ∧
    ∀ v', (Form.ofJson? v' : Option Statement) = Form.ofJson? (.object members) →
      ∀ text text' before after,
        Json.parse text = .ok (.array (before ++ .object members :: after)) →
        Json.parse text' = .ok (.array (before ++ v' :: after)) →
          Program.read text' = Program.read text := by
  refine ⟨fun _ => ofJson?_of_perm, fun _ => ofJson?_cons_null, label_or_operation_eq_none members,
    ?_, ?_⟩
  · intro h
    have hnone := ofJson?_eq_none h
    exact ⟨hnone, fun text vs htext hmem => read_of_mem htext hmem hnone⟩
  · intro v' hv' text text' before after htext htext'
    rw [Program.read, Program.read, readAll_of_parse htext, readAll_of_parse htext',
      Json.interpretItems_congr hv']

/-- An operation as it is usually written. -/
def plainMembers : List (String × Value) :=
  [("op", .string "addi"), ("rd", .int 6), ("rs1", .int 5), ("imm", .int 10)]

/-- The same members in another order, with a null for an operand that they leave out. -/
def reorderedMembers : List (String × Value) :=
  [("imm", .int 10), ("rs1", .int 5), ("rd", .int 6), ("op", .string "addi"), ("target", .null)]

/-- The reordered members are read as the plain ones are, as an object and in the text of a program;
a text in which a register is given twice is refused. -/
theorem reading_of_reorderedMembers :
    (Form.ofJson? (.object plainMembers) : Option Statement) =
        some (.operation ⟨.imm .addi, some 6, some 5, none, some 10, none⟩) ∧
      (Form.ofJson? (.object reorderedMembers) : Option Statement) =
        some (.operation ⟨.imm .addi, some 6, some 5, none, some 10, none⟩) ∧
      Program.read "[\x7b\"imm\":10,\"rs1\":5,\"rd\":6,\"op\":\"addi\",\"target\":null\x7d]" =
        .ok [.entry (.concrete (.i .opImm 0b000 6 5 10))] ∧
      Program.read "[\x7b\"rd\":6,\"op\":\"addi\",\"rd\":6,\"rs1\":5,\"imm\":10\x7d]" =
        .error (.json .mismatch) := by
  obtain ⟨-, hnull, -, -, hread⟩ := reading_by_members plainMembers
  obtain ⟨hperm, -⟩ := reading_by_members (("target", .null) :: plainMembers)
  obtain ⟨-, -, -, hrefused, -⟩ := reading_by_members (("rd", .int 6) :: plainMembers)
  have hplain : (Form.ofJson? (.object plainMembers) : Option Statement) =
      some (.operation ⟨.imm .addi, some 6, some 5, none, some 10, none⟩) := by rfl
  have hreordered : (Form.ofJson? (.object reorderedMembers) : Option Statement) =
      Form.ofJson? (.object plainMembers) := by
    rw [hperm reorderedMembers (List.reverse_perm _).symm]
    exact hnull .target (by simp [plainMembers, Operand.name]) (by simp [plainMembers])
  have hrepeated : ¬ ((("rd", Value.int 6) :: plainMembers).map (·.1)).Nodup := by
    simp [plainMembers]
  refine ⟨hplain, hreordered.trans hplain, ?_, ?_⟩
  · have hplainText : Json.parse "[\x7b\"op\":\"addi\",\"rd\":6,\"rs1\":5,\"imm\":10\x7d]" =
        .ok (.array ([] ++ .object plainMembers :: [])) := by cbv
    have hprogram : Program.read "[\x7b\"op\":\"addi\",\"rd\":6,\"rs1\":5,\"imm\":10\x7d]" =
        .ok [.entry (.concrete (.i .opImm 0b000 6 5 10))] := by
      rw [Program.read, readAll_of_parse hplainText]
      rfl
    rw [← hprogram]
    apply hread _ hreordered _ _ [] [] hplainText
    cbv
  · apply (hrefused (.inl hrepeated)).2 _ [.object (("rd", .int 6) :: plainMembers)]
    · cbv
    · exact List.mem_singleton.mpr rfl

end Statement

end Rv32Asm

import Mathlib
import Rv32Asm.Proofs.Field
import Rv32Asm.Proofs.FirstPass

/-!
# Tables of labels and the calls that built them

A table of labels is built by calls of `define`, some of which are refused. What it holds can be
read off the calls, refused ones included: looking up a name in the table is looking it up in the
list of calls (`get?_after`), because a name that the table holds is never given another address. A
call is therefore refused exactly if an earlier one has the same name, and the table has as many
labels as the calls have names.
-/

namespace Rv32Asm

namespace LabelTable

/-! ### Calls -/

/-- A call that defines a label: the table that it leaves and how it ends. A call that is refused
leaves the table that it was made on. -/
def call (t : LabelTable) (name : String) (address : Word) :
    LabelTable × Except AssemblyError Unit :=
  match t.define name address with
  | .ok t' => (t', .ok ())
  | .error e => (t, .error e)

/-- The table after a sequence of calls, each given by its name and its address. -/
def after (t : LabelTable) (calls : List (String × Word)) : LabelTable :=
  calls.foldl (fun t c => (t.call c.1 c.2).1) t

@[simp] theorem after_nil (t : LabelTable) : t.after [] = t := rfl

@[simp] theorem after_cons (t : LabelTable) (name : String) (address : Word)
    (calls : List (String × Word)) :
    t.after ((name, address) :: calls) = (t.call name address).1.after calls := rfl

theorem after_append (t : LabelTable) (calls calls' : List (String × Word)) :
    t.after (calls ++ calls') = (t.after calls).after calls' :=
  List.foldl_append

/-- What a call can do: it is refused and changes nothing if the table holds its name, and else it
adds its label at the end. -/
theorem call_cases (t : LabelTable) (name : String) (address : Word) :
    (∃ first, t.get? name = some first ∧
        t.call name address = (t, .error (.duplicateLabel name first address))) ∨
      (t.get? name = none ∧ t.call name address = (⟨t.entries ++ [(name, address)]⟩, .ok ())) := by
  cases hget : t.get? name with
  | some first => exact .inl ⟨first, rfl, by simp only [call, define, hget]⟩
  | none => exact .inr ⟨rfl, by simp only [call, define, hget]⟩

variable {t : LabelTable} {name : String} {address : Word} {e : AssemblyError}
  {calls : List (String × Word)}

theorem call_eq_error_iff :
    (t.call name address).2 = .error e ↔
      ∃ first, t.get? name = some first ∧ e = .duplicateLabel name first address := by
  rcases call_cases t name address with ⟨first, hfound, h⟩ | ⟨hfresh, h⟩
  · simp [h, hfound, eq_comm]
  · simp [h, hfresh]

theorem call_fst_of_error (hrefused : (t.call name address).2 = .error e) :
    (t.call name address).1 = t := by
  rcases call_cases t name address with ⟨first, -, h⟩ | ⟨-, h⟩
  · rw [h]
  · rw [h] at hrefused
    cases hrefused

/-! ### Addresses -/

/-- A call gives an address to its own name, and only if the name has none. -/
theorem get?_call (t : LabelTable) (name : String) (address : Word) (sought : String) :
    (t.call name address).1.get? sought =
      (t.get? sought).or ([(name, address)].lookup sought) := by
  rcases call_cases t name address with ⟨first, hfound, h⟩ | ⟨-, h⟩
  · rw [h]
    by_cases hsought : sought = name
    · rw [hsought, hfound]
      rfl
    · have hother : [(name, address)].lookup sought = none :=
        lookup_eq_none_of_not_mem (by simpa using hsought)
      rw [hother, Option.or_none]
  · rw [h]
    exact List.lookup_append

/-- The table holds what it held before and, for every other name, the first address that the calls
give. -/
theorem get?_after (t : LabelTable) (calls : List (String × Word)) (sought : String) :
    (t.after calls).get? sought = (t.get? sought).or (calls.lookup sought) := by
  induction calls generalizing t with
  | nil => exact Option.or_none.symm
  | cons c calls ih =>
    obtain ⟨name, address⟩ := c
    rw [after_cons, ih, get?_call, Option.or_assoc, ← List.lookup_append]
    rfl

theorem get?_after_empty (calls : List (String × Word)) (sought : String) :
    (empty.after calls).get? sought = calls.lookup sought :=
  get?_after empty calls sought

/-- No sequence of calls takes a label out of a table or moves it. -/
theorem extends_after (t : LabelTable) (calls : List (String × Word)) :
    (t.after calls).Extends t := by
  intro name address hget
  rw [get?_after, hget]
  rfl

/-- The earliest of the calls with that name is made with that address. -/
def Earliest (calls : List (String × Word)) (name : String) (address : Word) : Prop :=
  ∃ before rest, calls = before ++ (name, address) :: rest ∧ name ∉ before.map Prod.fst

theorem lookup_eq_some_iff_earliest :
    calls.lookup name = some address ↔ Earliest calls name address := by
  simp only [Earliest, ← lookup_eq_none_iff_not_mem, List.lookup_eq_none_iff]
  exact List.lookup_eq_some_iff

theorem Earliest.append (h : Earliest calls name address) (rest : List (String × Word)) :
    Earliest (calls ++ rest) name address := by
  obtain ⟨before, between, rfl, hfresh⟩ := h
  exact ⟨before, between ++ rest, by simp, hfresh⟩

/-! ### Names -/

/-- The names in a table, in the order of their definition. -/
def names (t : LabelTable) : List String := t.entries.map Prod.fst

theorem get?_eq_none_iff : t.get? name = none ↔ name ∉ t.names := lookup_eq_none_iff_not_mem

/-- A call is refused exactly if its name is in the table. -/
theorem exists_call_eq_error_iff :
    (∃ e, (t.call name address).2 = .error e) ↔ name ∈ t.names := by
  rw [← not_iff_not, ← get?_eq_none_iff]
  simp [call_eq_error_iff, Option.eq_none_iff_forall_ne_some]

theorem nodup_names_call (h : t.names.Nodup) : (t.call name address).1.names.Nodup := by
  rcases call_cases t name address with ⟨first, -, hcall⟩ | ⟨hfresh, hcall⟩
  · rw [hcall]
    exact h
  · have hnames : (t.call name address).1.names = t.names ++ [name] := by
      rw [hcall]
      exact List.map_append
    rw [hnames, ← List.concat_eq_append]
    exact h.concat (get?_eq_none_iff.mp hfresh)

theorem nodup_names_after (h : t.names.Nodup) (calls : List (String × Word)) :
    (t.after calls).names.Nodup := by
  induction calls generalizing t with
  | nil => exact h
  | cons c calls ih => exact ih (nodup_names_call h)

theorem mem_names_after_empty : name ∈ (empty.after calls).names ↔ name ∈ calls.map Prod.fst := by
  rw [← not_iff_not, ← get?_eq_none_iff, get?_after_empty, lookup_eq_none_iff_not_mem]

/-- The table has one label for each name that the calls use. -/
theorem size_after_empty (calls : List (String × Word)) :
    (empty.after calls).size = (calls.map Prod.fst).toFinset.card := by
  have hnodup : (empty.after calls).names.Nodup :=
    nodup_names_after (t := empty) List.nodup_nil calls
  have hnames : (empty.after calls).names.toFinset = (calls.map Prod.fst).toFinset := by
    ext name
    rw [List.mem_toFinset, List.mem_toFinset, mem_names_after_empty]
  calc (empty.after calls).size
      = (empty.after calls).names.length := (List.length_map Prod.fst).symm
    _ = (empty.after calls).names.toFinset.card := (List.toFinset_card_of_nodup hnodup).symm
    _ = (calls.map Prod.fst).toFinset.card := by rw [hnames]

/-! ### The first definition -/

/-- A table keeps the first definition of every name. Of any calls on an empty table, one is refused
exactly if an earlier one has its name; the error gives the address of the earliest call with that
name and the address refused, and the table stays as it is. After all of them, every name has the
address of its earliest call, also when more calls follow, and the table counts the names. -/
theorem first_definition_stays (calls : List (String × Word)) :
    (∀ before name address rest, calls = before ++ (name, address) :: rest →
      ((∃ e, ((empty.after before).call name address).2 = .error e) ↔
          name ∈ before.map Prod.fst) ∧
        ∀ e, ((empty.after before).call name address).2 = .error e →
          (∃ first, Earliest calls name first ∧ e = .duplicateLabel name first address) ∧
            empty.after (before ++ [(name, address)]) = empty.after before) ∧
      (∀ name address, (empty.after calls).get? name = some address ↔
        Earliest calls name address) ∧
      (∀ name, (empty.after calls).get? name = none ↔ name ∉ calls.map Prod.fst) ∧
      (∀ more, (empty.after (calls ++ more)).Extends (empty.after calls)) ∧
      (empty.after calls).size = (calls.map Prod.fst).toFinset.card := by
  refine ⟨?_, ?_, ?_, ?_, size_after_empty calls⟩
  · rintro before name address rest rfl
    constructor
    · rw [exists_call_eq_error_iff, mem_names_after_empty]
    · intro e hrefused
      obtain ⟨first, hfound, rfl⟩ := call_eq_error_iff.mp hrefused
      rw [get?_after_empty, lookup_eq_some_iff_earliest] at hfound
      refine ⟨⟨first, hfound.append _, rfl⟩, ?_⟩
      rw [after_append]
      exact call_fst_of_error hrefused
  · intro name address
    rw [get?_after_empty, lookup_eq_some_iff_earliest]
  · intro name
    rw [get?_after_empty, lookup_eq_none_iff_not_mem]
  · intro more
    rw [after_append]
    exact extends_after _ more

/-- The third call repeats a name of the first; the fourth repeats a call that was accepted. -/
theorem first_definition_stays_of_four :
    ((empty.after [("a", 0x100#32), ("b", 0x104#32)]).call "a" 0x108#32).2 =
        .error (.duplicateLabel "a" 0x100#32 0x108#32) ∧
      empty.after [("a", 0x100#32), ("b", 0x104#32), ("a", 0x108#32)] =
        empty.after [("a", 0x100#32), ("b", 0x104#32)] ∧
      (empty.after [("a", 0x100#32), ("b", 0x104#32), ("a", 0x108#32),
        ("b", 0x104#32)]).get? "a" = some 0x100#32 ∧
      (empty.after [("a", 0x100#32), ("b", 0x104#32), ("a", 0x108#32),
        ("b", 0x104#32)]).size = 2 := by
  obtain ⟨hcalls, hget, -, -, hsize⟩ := first_definition_stays
    [("a", 0x100#32), ("b", 0x104#32), ("a", 0x108#32), ("b", 0x104#32)]
  obtain ⟨hrefused, herror⟩ := hcalls [("a", 0x100#32), ("b", 0x104#32)] "a" 0x108#32
    [("b", 0x104#32)] rfl
  have hfirst := (hget "a" 0x100#32).mpr ⟨[], _, rfl, by simp⟩
  obtain ⟨e, he⟩ := hrefused.mpr (by decide)
  obtain ⟨⟨first, hearliest, rfl⟩, hsame⟩ := herror e he
  have hunique : first = 0x100#32 :=
    Option.some.inj (((hget "a" first).mpr hearliest).symm.trans hfirst)
  exact ⟨hunique ▸ he, hsame, hfirst, hsize.trans (by decide)⟩

end LabelTable

end Rv32Asm

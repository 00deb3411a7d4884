import Mathlib
import Rv32Asm.Proofs.Relocation

/-!
# Labels and the entries that they mark

A label matters only through the number of entries in front of its declaration. Two programs whose
entries agree, but for the names of the labels they refer to, and whose labels mark the same
entries, are assembled alike (`Entry.Counterpart`): how labels are called, how many there are and in
which order they stand at one place makes no difference to the instructions.
-/

namespace Rv32Asm

/-- The label is declared behind exactly `count` entries. -/
def Program.Marks (p : Program) (name : String) (count : Nat) : Prop :=
  ∃ l : Nat, p[l]? = some (.label name) ∧ p.entriesBefore l = count

/-- The entries are equal, but for the name of a label that they refer to, and the label of the
first program marks the same place as that of the second. -/
inductive Entry.Counterpart (p q : Program) : Entry → Entry → Prop
  | concrete (inst : Instruction) : Counterpart p q (.concrete inst) (.concrete inst)
  | pending {ref : Reference} {name : String} {count : Nat} (hp : p.Marks ref.label count)
    (hq : q.Marks name count) : Counterpart p q (.pending ref) (.pending (ref.relabel name))

/-! ### Two programs with the same marks -/

section Counterparts

variable {p q : Program} {origin : Word}

theorem Program.get?_bindings_of_marks {name : String} {count : Nat} (start : Nat)
    (hdistinct : p.Distinct) (h : p.Marks name count) :
    LabelTable.get? ⟨p.bindings start⟩ name = some (BitVec.ofNat 32 (start + 4 * count)) := by
  obtain ⟨l, hl, rfl⟩ := h
  exact get?_bindings start hdistinct hl

/-- Counterparts at the same address stand for the same instruction. -/
theorem Entry.Counterpart.resolve {e e' : Entry} (h : e.Counterpart p q e') (start : Nat)
    (hdistinct : p.Distinct) (hdistinct' : q.Distinct) {pc pc' : Word}
    (hpc : (pc'.toNat : Int) = pc.toNat + 0) :
    MovedResult 0 (e.resolve ⟨p.bindings start⟩ pc) (e'.resolve ⟨q.bindings start⟩ pc') := by
  cases h with
  | concrete inst => exact .ok inst
  | pending hp hq =>
    have hget := Program.get?_bindings_of_marks start hdistinct hp
    have hget' := Program.get?_bindings_of_marks start hdistinct' hq
    exact Reference.resolve_relabel_moved hget hget' hpc (by omega)

/-- A program whose items can all be passed over is assembled like its counterpart. -/
theorem assemble_of_fits_of_distinct {a : Assembly}
    (hentries : List.Forall₂ (Entry.Counterpart p q) p.entries q.entries)
    (ha : assemble p origin = .ok a) (hfits' : q.Fits origin) (hdistinct' : q.Distinct) :
    assemble q origin = .ok a := by
  obtain ⟨haligned, hclear, -, -⟩ := assemble_eq_ok_iff.mp ha
  obtain ⟨hfits, hdistinct⟩ := (Walk.allClear_start_iff p origin).mp hclear
  have hclear' := (Walk.allClear_start_iff q origin).mpr ⟨hfits', hdistinct'⟩
  have hsame := Program.mapM_resolve_moved (Int.add_zero _).symm
    (Program.end_le_of_fits haligned hfits) (Program.end_le_of_fits haligned hfits')
    (hentries.imp fun e e' h pc pc' => h.resolve origin.toNat hdistinct hdistinct')
  rw [assemble_of_allClear haligned hclear] at ha
  rw [assemble_of_allClear haligned hclear']
  rcases hsame.ok_or_error with ⟨insts, hok, hok'⟩ | ⟨e, e', herror, -, -⟩
  · rw [hok] at ha
    rw [hok']
    exact ha
  · rw [herror] at ha
    cases ha

/-- Labels matter only through the entries that they mark. If the entries of two programs agree, but
for the names of labels that mark the same entry in both, and the first pass accepts the second
program, then the second is assembled to the same instructions as the first. -/
theorem assemble_of_counterparts {a : Assembly} {fresh : Assembler}
    (hentries : List.Forall₂ (Entry.Counterpart p q) p.entries q.entries)
    (ha : assemble p origin = .ok a) (hnew : Assembler.new q origin = .ok fresh)
    (hpass1 : fresh.pass1.2 = .ok ()) : assemble q origin = .ok a := by
  obtain ⟨-, rfl⟩ := new_eq_ok_iff.mp hnew
  have hclear' : (Walk.start origin).AllClear q := (pass1_eq_ok_iff _).mp hpass1
  obtain ⟨hfits', hdistinct'⟩ := (Walk.allClear_start_iff q origin).mp hclear'
  exact assemble_of_fits_of_distinct hentries ha hfits' hdistinct'

end Counterparts

/-- Two labels at one place become one, and a label that nothing refers to is added. -/
theorem assemble_merged_labels :
    assemble [.label "a", .label "b", .entry (.pending (.jump 1 "b")),
        .entry (.pending (.branch (.branch .bne) 5 0 "a"))] 0x10000000#32 =
      .ok ⟨0x10000000#32, [.j 1 0, .b 1 5 0 (-2)]⟩ ∧
    assemble [.label "c", .entry (.pending (.jump 1 "c")), .label "d",
        .entry (.pending (.branch (.branch .bne) 5 0 "c"))] 0x10000000#32 =
      .ok ⟨0x10000000#32, [.j 1 0, .b 1 5 0 (-2)]⟩ := by
  have h : assemble [.label "a", .label "b", .entry (.pending (.jump 1 "b")),
        .entry (.pending (.branch (.branch .bne) 5 0 "a"))] 0x10000000#32 =
      .ok ⟨0x10000000#32, [.j 1 0, .b 1 5 0 (-2)]⟩ := by rfl
  refine ⟨h, assemble_of_counterparts (.cons ?_ (.cons ?_ .nil)) h rfl rfl⟩
  · exact .pending ⟨1, rfl, rfl⟩ ⟨0, rfl, rfl⟩
  · exact .pending ⟨0, rfl, rfl⟩ ⟨0, rfl, rfl⟩

/-! ### Renaming -/

/-- The entry with the label that it refers to renamed. -/
def Entry.rename (f : String → String) : Entry → Entry
  | concrete inst => concrete inst
  | pending ref => pending (ref.relabel (f ref.label))

def Item.rename (f : String → String) : Item → Item
  | label name => label (f name)
  | entry e => entry (e.rename f)

namespace Program

/-- The program with every label renamed, where it is declared and where it is referred to. -/
def rename (f : String → String) (p : Program) : Program := p.map (Item.rename f)

variable {f : String → String} {p : Program} {origin : Word}

theorem entries_rename (f : String → String) (p : Program) :
    (p.rename f).entries = p.entries.map (Entry.rename f) := by
  induction p with
  | nil => rfl
  | cons item p ih =>
    cases item with
    | label name => exact ih
    | entry e => exact congrArg (e.rename f :: ·) ih

theorem entriesBefore_rename (f : String → String) (p : Program) (j : Nat) :
    (p.rename f).entriesBefore j = p.entriesBefore j := by
  have htake : (p.rename f).take j = rename f (p.take j) := List.map_take.symm
  unfold entriesBefore
  rw [htake, entries_rename, List.length_map]

theorem getElem?_rename_of_label {l : Nat} {name : String} (h : p[l]? = some (.label name)) :
    (p.rename f)[l]? = some (.label (f name)) := by
  unfold rename
  rw [List.getElem?_map, h]
  rfl

theorem exists_of_getElem?_rename {l : Nat} {name : String}
    (h : (p.rename f)[l]? = some (.label name)) :
    ∃ name', p[l]? = some (.label name') ∧ f name' = name := by
  unfold rename at h
  rw [List.getElem?_map] at h
  obtain ⟨item, hitem, hrenamed⟩ := Option.map_eq_some_iff.mp h
  cases item with
  | label name' =>
    cases hrenamed
    exact ⟨name', hitem, rfl⟩
  | entry e => cases hrenamed

theorem fits_rename (hfits : p.Fits origin) : (p.rename f).Fits origin := by
  intro j hj
  unfold addressAt
  rw [entriesBefore_rename]
  exact hfits j (by simpa [rename] using hj)

theorem distinct_rename (hf : Function.Injective f) (hdistinct : p.Distinct) :
    (p.rename f).Distinct := by
  intro j l name hj hl
  obtain ⟨name', hj', rfl⟩ := exists_of_getElem?_rename hj
  obtain ⟨name'', hl', hsame⟩ := exists_of_getElem?_rename hl
  rw [hf hsame] at hl'
  exact hdistinct j l name' hj' hl'

theorem marks_rename {name : String} {count : Nat} (h : p.Marks name count) :
    (p.rename f).Marks (f name) count := by
  obtain ⟨l, hl, hcount⟩ := h
  exact ⟨l, getElem?_rename_of_label hl, (entriesBefore_rename f p l).trans hcount⟩

end Program

/-- Renaming labels without letting two of them fall together leaves the instructions as they
are. -/
theorem assemble_rename {f : String → String} (hf : Function.Injective f) {p : Program}
    {origin : Word} {a : Assembly} (ha : assemble p origin = .ok a) :
    assemble (p.rename f) origin = .ok a := by
  obtain ⟨-, hfits, hdistinct, hresolvable⟩ := (exists_assemble_iff p origin).mp ⟨a, ha⟩
  refine assemble_of_fits_of_distinct ?_ ha (Program.fits_rename hfits)
    (Program.distinct_rename hf hdistinct)
  rw [Program.entries_rename, List.forall₂_map_right_iff, List.forall₂_same]
  intro e he
  cases e with
  | concrete inst => exact .concrete inst
  | pending ref =>
    -- the label is declared, because the reference has been resolved
    obtain ⟨item, hitem, hentry⟩ := List.mem_filterMap.mp he
    cases item with
    | label name => cases hentry
    | entry e' =>
      cases hentry
      obtain ⟨j, hj⟩ := List.mem_iff_getElem?.mp hitem
      obtain ⟨l, hl, -⟩ := hresolvable j ref hj
      have hmarks : p.Marks ref.label (p.entriesBefore l) := ⟨l, hl, rfl⟩
      exact .pending hmarks (Program.marks_rename hmarks)

end Rv32Asm

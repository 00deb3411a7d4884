import Mathlib
import Rv32Asm.Assembly.Assembler

/-!
# The first pass

An item of a program lies at an address that follows from the number of entries before it. The
first pass binds every label to the address of its item and records the address of every entry. It
ends early at the first item that lies past the last address or declares a label that is in the
table already (`Walk.Clear` fails there); before that item it has recorded exactly what the items
up to there call for (`Walk.advance`).
-/

namespace Rv32Asm

/-! ### Tables -/

namespace LabelTable

/-- Every label of the second table has the same address in the first. -/
def Extends (t' t : LabelTable) : Prop :=
  ∀ name address, t.get? name = some address → t'.get? name = some address

theorem Extends.refl (t : LabelTable) : t.Extends t := fun _ _ h => h

theorem Extends.trans {t'' t' t : LabelTable} (h' : t''.Extends t') (h : t'.Extends t) :
    t''.Extends t := fun name address hget => h' name address (h name address hget)

/-- Labels that are added at the end hide none of those in front of them. -/
theorem extends_append (entries added : List (String × Word)) :
    (⟨entries ++ added⟩ : LabelTable).Extends ⟨entries⟩ := by
  intro name address hget
  change (entries ++ added).lookup name = some address
  rw [List.lookup_append, show entries.lookup name = some address from hget]
  rfl

/-- Labels that are put in front hide none of those behind them if they have other names. -/
theorem extends_append_left {entries added : List (String × Word)}
    (h : ∀ name address, entries.lookup name = some address → added.lookup name = none) :
    (⟨added ++ entries⟩ : LabelTable).Extends ⟨entries⟩ := by
  intro name address hget
  change (added ++ entries).lookup name = some address
  rw [List.lookup_append, h name address hget, Option.none_or]
  exact hget

end LabelTable

/-! ### Positions -/

namespace Program

theorem entries_label_cons (name : String) (p : Program) :
    entries (.label name :: p) = entries p := rfl

theorem entries_entry_cons (e : Entry) (p : Program) :
    entries (.entry e :: p) = e :: entries p := rfl

/-- How many entries stand before the item at index `j`. -/
def entriesBefore (p : Program) (j : Nat) : Nat := (entries (p.take j)).length

/-- The address of the item at index `j` of a program that starts at `start`; it may lie past the
last address of the address space. -/
def addressAt (p : Program) (start j : Nat) : Nat := start + 4 * p.entriesBefore j

theorem addressAt_entry_succ (e : Entry) (p : Program) (start j : Nat) :
    addressAt (.entry e :: p) start (j + 1) = addressAt p (start + 4) j := by
  unfold addressAt entriesBefore
  rw [List.take_succ_cons, entries_entry_cons, List.length_cons]
  omega

theorem entriesBefore_succ {p : Program} {j : Nat} {e : Entry} (h : p[j]? = some (.entry e)) :
    p.entriesBefore (j + 1) = p.entriesBefore j + 1 := by
  unfold entriesBefore entries
  rw [List.take_add_one, h, List.filterMap_append, List.length_append]
  rfl

theorem entriesBefore_le (p : Program) {j k : Nat} (h : j ≤ k) :
    p.entriesBefore j ≤ p.entriesBefore k := by
  unfold entriesBefore entries
  apply List.Sublist.length_le
  apply List.Sublist.filterMap
  exact (List.take_prefix_take_left h).sublist

theorem entriesBefore_lt {p : Program} {j k : Nat} {e : Entry} (h : p[j]? = some (.entry e))
    (hjk : j < k) : p.entriesBefore j < p.entriesBefore k := by
  have hnext := entriesBefore_succ h
  have hle : p.entriesBefore (j + 1) ≤ p.entriesBefore k := p.entriesBefore_le hjk
  omega

theorem addressAt_le (p : Program) (start : Nat) {j k : Nat} (h : j ≤ k) :
    p.addressAt start j ≤ p.addressAt start k := by
  have hle := p.entriesBefore_le h
  unfold addressAt
  omega

theorem addressAt_take (p : Program) (start : Nat) {j k : Nat} (h : j ≤ k) :
    addressAt (p.take k) start j = p.addressAt start j := by
  unfold addressAt entriesBefore
  rw [List.take_take, Nat.min_eq_left h]

/-- The labels of a program that starts at `start`, with their addresses. -/
def bindings : Program → Nat → List (String × Word)
  | [], _ => []
  | .label name :: p, start => (name, BitVec.ofNat 32 start) :: bindings p start
  | .entry _ :: p, start => bindings p (start + 4)

/-- The entries of a program that starts at `start`, with their addresses. -/
def placedEntries : Program → Nat → List (Entry × Word)
  | [], _ => []
  | .label _ :: p, start => placedEntries p start
  | .entry e :: p, start => (e, BitVec.ofNat 32 start) :: placedEntries p (start + 4)

theorem map_fst_placedEntries (p : Program) (start : Nat) :
    (p.placedEntries start).map Prod.fst = p.entries := by
  induction p generalizing start with
  | nil => rfl
  | cons item p ih =>
    cases item with
    | label name => exact ih start
    | entry e => exact congrArg (e :: ·) (ih (start + 4))

theorem length_placedEntries (p : Program) (start : Nat) :
    (p.placedEntries start).length = p.entries.length := by
  rw [← map_fst_placedEntries p start, List.length_map]

/-- The addresses of `count` words that stand one after the other from `start` on. -/
def addressesFrom (start count : Nat) : List Word :=
  (List.range' start count 4).map (BitVec.ofNat 32)

theorem addressesFrom_succ (start count : Nat) :
    addressesFrom start (count + 1) =
      BitVec.ofNat 32 start :: addressesFrom (start + 4) count := rfl

theorem map_snd_placedEntries (p : Program) (start : Nat) :
    (p.placedEntries start).map Prod.snd = addressesFrom start p.entries.length := by
  induction p generalizing start with
  | nil => rfl
  | cons item p ih =>
    cases item with
    | label name => exact ih start
    | entry e => exact congrArg (BitVec.ofNat 32 start :: ·) (ih (start + 4))

/-- Only the number of entries decides where they are placed. -/
theorem placedEntries_eq_zip (p : Program) (start : Nat) :
    p.placedEntries start = p.entries.zip (addressesFrom start p.entries.length) := by
  rw [← map_snd_placedEntries p start, ← map_fst_placedEntries p start, List.zip_map']
  simp

/-- A label that the table holds is declared somewhere, and for the first time where the table says
it is. -/
theorem lookup_bindings_eq_some_iff {p : Program} {start : Nat} {name : String} {address : Word} :
    (p.bindings start).lookup name = some address ↔
      ∃ l, p[l]? = some (.label name) ∧ (∀ k < l, p[k]? ≠ some (.label name)) ∧
        address = BitVec.ofNat 32 (p.addressAt start l) := by
  induction p generalizing start with
  | nil => simp [bindings]
  | cons item p ih =>
    cases item with
    | label first =>
      by_cases h : name = first
      · subst h
        rw [bindings, List.lookup_cons_self]
        constructor
        · intro heq
          cases heq
          exact ⟨0, rfl, by simp, rfl⟩
        · rintro ⟨l, hl, hfirst, rfl⟩
          cases l with
          | zero => rfl
          | succ l => exact absurd rfl (hfirst 0 (Nat.succ_pos l))
      · have hbeq : (name == first) = false := by simpa using h
        rw [bindings, List.lookup_cons, hbeq, ih]
        constructor
        · rintro ⟨l, hl, hfirst, rfl⟩
          refine ⟨l + 1, hl, ?_, rfl⟩
          intro k hk
          cases k with
          | zero => simpa using Ne.symm h
          | succ k => exact hfirst k (by omega)
        · rintro ⟨l, hl, hfirst, rfl⟩
          cases l with
          | zero => simp [Ne.symm h] at hl
          | succ l => exact ⟨l, hl, fun k hk => hfirst (k + 1) (by omega), rfl⟩
    | entry e =>
      rw [bindings, ih]
      constructor
      · rintro ⟨l, hl, hfirst, rfl⟩
        refine ⟨l + 1, hl, ?_, by rw [addressAt_entry_succ]⟩
        intro k hk
        cases k with
        | zero => simp
        | succ k => exact hfirst k (by omega)
      · rintro ⟨l, hl, hfirst, rfl⟩
        cases l with
        | zero => simp at hl
        | succ l =>
          exact ⟨l, hl, fun k hk => hfirst (k + 1) (by omega), by rw [addressAt_entry_succ]⟩

/-- A label that the table does not hold is declared nowhere. -/
theorem lookup_bindings_eq_none_iff {p : Program} {start : Nat} {name : String} :
    (p.bindings start).lookup name = none ↔ ∀ l : Nat, p[l]? ≠ some (.label name) := by
  constructor
  · intro hnone l hl
    -- the first of the declarations would be in the table
    have hdeclared : ∃ l : Nat, p[l]? = some (.label name) := ⟨l, hl⟩
    have hfound : (p.bindings start).lookup name = some _ := lookup_bindings_eq_some_iff.mpr
      ⟨Nat.find hdeclared, Nat.find_spec hdeclared, fun k hk => Nat.find_min hdeclared hk, rfl⟩
    rw [hnone] at hfound
    cases hfound
  · intro hnowhere
    rw [Option.eq_none_iff_forall_ne_some]
    intro address hfound
    obtain ⟨l, hl, -, -⟩ := lookup_bindings_eq_some_iff.mp hfound
    exact hnowhere l hl

/-- The entry at index `j` is placed at the address of that index. -/
theorem getElem?_placedEntries {p : Program} {j : Nat} {e : Entry} (start : Nat)
    (h : p[j]? = some (.entry e)) :
    (p.placedEntries start)[p.entriesBefore j]? =
      some (e, BitVec.ofNat 32 (p.addressAt start j)) := by
  induction p generalizing start j with
  | nil => simp at h
  | cons item p ih =>
    cases j with
    | zero =>
      cases item with
      | label name => simp at h
      | entry e' =>
        cases h
        rfl
    | succ j =>
      cases item with
      | label name => exact ih start h
      | entry e' =>
        rw [addressAt_entry_succ]
        exact ih (start + 4) h

/-- Every placed entry stands at some index of the program. -/
theorem exists_of_getElem?_placedEntries {p : Program} {start i : Nat} {e : Entry} {pc : Word}
    (h : (p.placedEntries start)[i]? = some (e, pc)) :
    ∃ j, p[j]? = some (.entry e) ∧ p.entriesBefore j = i ∧
      pc = BitVec.ofNat 32 (p.addressAt start j) := by
  induction p generalizing start i with
  | nil => simp [placedEntries] at h
  | cons item p ih =>
    cases item with
    | label name =>
      obtain ⟨j, hj, hi, hpc⟩ := ih h
      exact ⟨j + 1, hj, hi, hpc⟩
    | entry e' =>
      cases i with
      | zero =>
        cases h
        exact ⟨0, rfl, rfl, rfl⟩
      | succ i =>
        obtain ⟨j, hj, hi, hpc⟩ := ih h
        refine ⟨j + 1, hj, congrArg (· + 1) hi, ?_⟩
        rw [addressAt_entry_succ]
        exact hpc

end Program

/-! ### Passing over items -/

namespace Walk

/-- The item can be passed over: it lies within the address space, and a label is not in the
table. -/
def Clear (w : Walk) (item : Item) : Prop :=
  w.counter < addressCount ∧ ∀ name, item = .label name → w.labels.get? name = none

/-- What passing over an item records. -/
def advance (w : Walk) : Item → Walk
  | .label name => { w with labels := ⟨w.labels.entries ++ [(name, BitVec.ofNat 32 w.counter)]⟩ }
  | .entry _ => { w with pcs := w.pcs.push (BitVec.ofNat 32 w.counter), counter := w.counter + 4 }

theorem failure_advance (w : Walk) (item : Item) : (w.advance item).failure = w.failure := by
  cases item <;> rfl

theorem step_of_clear {w : Walk} {item : Item} (hrunning : w.failure = none)
    (hclear : w.Clear item) : w.step item = w.advance item := by
  obtain ⟨hcounter, hfresh⟩ := hclear
  unfold step
  rw [hrunning]
  simp only [if_pos hcounter]
  cases item with
  | label name => simp only [place, LabelTable.define, hfresh name rfl, advance]
  | entry e => rfl

/-- The error at an item that cannot be passed over: the item lies past the last address or, within
the address space, declares a label that is in the table. -/
inductive Stops (w : Walk) : Item → AssemblyError → Prop
  | addressOverflow {item : Item} (hcounter : addressCount ≤ w.counter) :
    w.Stops item .addressOverflow
  | duplicateLabel {name : String} {first : Word} (hcounter : w.counter < addressCount)
    (hfound : w.labels.get? name = some first) :
    w.Stops (.label name) (.duplicateLabel name first (BitVec.ofNat 32 w.counter))

theorem not_clear_of_stops {w : Walk} {item : Item} {e : AssemblyError} (h : w.Stops item e) :
    ¬ w.Clear item := by
  rintro ⟨hcounter, hfresh⟩
  cases h with
  | addressOverflow hpast => exact absurd hcounter (Nat.not_lt.mpr hpast)
  | duplicateLabel _ hfound =>
    rw [hfresh _ rfl] at hfound
    cases hfound

theorem exists_stops_of_not_clear {w : Walk} {item : Item} (h : ¬ w.Clear item) :
    ∃ e, w.Stops item e := by
  by_cases hcounter : w.counter < addressCount
  · cases item with
    | label name =>
      cases hfound : w.labels.get? name with
      | none => exact absurd ⟨hcounter, fun _ heq => by cases heq; exact hfound⟩ h
      | some first => exact ⟨_, .duplicateLabel hcounter hfound⟩
    | entry e => exact absurd ⟨hcounter, fun _ heq => by cases heq⟩ h
  · exact ⟨_, .addressOverflow (Nat.not_lt.mp hcounter)⟩

theorem step_of_stops {w : Walk} {item : Item} {e : AssemblyError} (hrunning : w.failure = none)
    (h : w.Stops item e) : w.step item = { w with failure := some e } := by
  unfold step
  rw [hrunning]
  cases h with
  | addressOverflow hpast => simp only [if_neg (Nat.not_lt.mpr hpast)]
  | duplicateLabel hcounter hfound =>
    simp only [if_pos hcounter, place, LabelTable.define, hfound]

theorem step_of_failed {w : Walk} {e : AssemblyError} (hfailed : w.failure = some e)
    (item : Item) : w.step item = w := by
  unfold step
  rw [hfailed]

/-- What a step can do: nothing once the walk has ended, else pass over the item or end there. -/
theorem step_cases (w : Walk) (item : Item) :
    (∃ e, w.failure = some e ∧ w.step item = w) ∨
      (w.failure = none ∧ w.Clear item ∧ w.step item = w.advance item) ∨
      ∃ e, w.failure = none ∧ w.Stops item e ∧ w.step item = { w with failure := some e } := by
  cases hfailure : w.failure with
  | some e => exact .inl ⟨e, rfl, step_of_failed hfailure item⟩
  | none =>
    by_cases hclear : w.Clear item
    · exact .inr (.inl ⟨rfl, hclear, step_of_clear hfailure hclear⟩)
    · obtain ⟨e, he⟩ := exists_stops_of_not_clear hclear
      exact .inr (.inr ⟨e, rfl, he, step_of_stops hfailure he⟩)

theorem foldl_step_of_failed {w : Walk} {e : AssemblyError} (hfailed : w.failure = some e)
    (p : Program) : p.foldl step w = w := by
  induction p with
  | nil => rfl
  | cons item p ih => rw [List.foldl_cons, step_of_failed hfailed, ih]

/-- All items of the program can be passed over, one after the other. -/
def AllClear (w : Walk) (p : Program) : Prop :=
  ∀ (j : Nat) (item : Item), p[j]? = some item → ((p.take j).foldl advance w).Clear item

theorem allClear_cons {w : Walk} {item : Item} {p : Program} :
    w.AllClear (item :: p) ↔ w.Clear item ∧ (w.advance item).AllClear p := by
  constructor
  · intro h
    exact ⟨h 0 item rfl, fun j item' hj => h (j + 1) item' hj⟩
  · rintro ⟨hhead, htail⟩ j item' hj
    cases j with
    | zero =>
      cases hj
      exact hhead
    | succ j => exact htail j item' hj

/-- A walk that meets no obstacle records what its items call for. -/
theorem foldl_step_of_allClear {w : Walk} {p : Program} (hrunning : w.failure = none)
    (hclear : w.AllClear p) : p.foldl step w = p.foldl advance w := by
  induction p generalizing w with
  | nil => rfl
  | cons item p ih =>
    obtain ⟨hhead, htail⟩ := allClear_cons.mp hclear
    rw [List.foldl_cons, List.foldl_cons, step_of_clear hrunning hhead]
    exact ih ((failure_advance w item).trans hrunning) htail

/-- A walk ends without a failure exactly if it meets no obstacle. -/
theorem failure_foldl_step_eq_none_iff {w : Walk} {p : Program} (hrunning : w.failure = none) :
    (p.foldl step w).failure = none ↔ w.AllClear p := by
  induction p generalizing w with
  | nil =>
    refine ⟨fun _ j item hj => ?_, fun _ => hrunning⟩
    simp at hj
  | cons item p ih =>
    rw [List.foldl_cons, allClear_cons]
    by_cases hclear : w.Clear item
    · rw [step_of_clear hrunning hclear, ih ((failure_advance w item).trans hrunning)]
      simp [hclear]
    · obtain ⟨e, he⟩ := exists_stops_of_not_clear hclear
      rw [step_of_stops hrunning he, foldl_step_of_failed rfl]
      simp [hclear]

/-- The error of a walk is that of the first item that cannot be passed over. -/
theorem failure_foldl_step_eq_some_iff {w : Walk} {p : Program} {e : AssemblyError}
    (hrunning : w.failure = none) :
    (p.foldl step w).failure = some e ↔
      ∃ (j : Nat) (item : Item), p[j]? = some item ∧
        (∀ k < j, ∀ item', p[k]? = some item' → ((p.take k).foldl advance w).Clear item') ∧
        ((p.take j).foldl advance w).Stops item e := by
  induction p generalizing w with
  | nil => simp [hrunning]
  | cons item p ih =>
    rw [List.foldl_cons]
    by_cases hclear : w.Clear item
    · rw [step_of_clear hrunning hclear, ih ((failure_advance w item).trans hrunning)]
      constructor
      · rintro ⟨j, item', hj, hfirst, hstops⟩
        refine ⟨j + 1, item', hj, ?_, hstops⟩
        intro k hk item'' hk'
        cases k with
        | zero =>
          cases hk'
          exact hclear
        | succ k => exact hfirst k (by omega) item'' hk'
      · rintro ⟨j, item', hj, hfirst, hstops⟩
        cases j with
        | zero =>
          cases hj
          exact absurd hclear (not_clear_of_stops hstops)
        | succ j =>
          exact ⟨j, item', hj, fun k hk item'' hk' => hfirst (k + 1) (by omega) item'' hk', hstops⟩
    · obtain ⟨e', he'⟩ := exists_stops_of_not_clear hclear
      rw [step_of_stops hrunning he', foldl_step_of_failed rfl]
      constructor
      · intro h
        cases h
        exact ⟨0, item, rfl, fun k hk => absurd hk (Nat.not_lt_zero k), he'⟩
      · rintro ⟨j, item', hj, hfirst, hstops⟩
        cases j with
        | zero =>
          cases hj
          -- both errors are the one that the step gives
          have hsame := (step_of_stops hrunning he').symm.trans (step_of_stops hrunning hstops)
          exact congrArg Walk.failure hsame
        | succ j => exact absurd (hfirst 0 (Nat.succ_pos j) item rfl) hclear

/-- What passing over a whole program records. -/
theorem foldl_advance (w : Walk) (p : Program) :
    p.foldl advance w =
      { counter := w.counter + 4 * p.entries.length
        labels := ⟨w.labels.entries ++ p.bindings w.counter⟩
        pcs := w.pcs ++ ((p.placedEntries w.counter).map Prod.snd).toArray
        failure := w.failure } := by
  induction p generalizing w with
  | nil => simp [Program.entries, Program.bindings, Program.placedEntries]
  | cons item p ih =>
    rw [List.foldl_cons, ih]
    cases item with
    | label name =>
      simp [advance, Program.entries_label_cons, Program.bindings, Program.placedEntries]
    | entry e =>
      simp [advance, Program.entries_entry_cons, Program.bindings, Program.placedEntries]
      omega

end Walk

end Rv32Asm

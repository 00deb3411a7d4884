import Mathlib
import Rv32Asm.Proofs.Failure

/-!
# Repeated passes

An assembler can be asked for either pass any number of times, and it keeps what it has recorded,
also in a pass that failed. Once the first pass has been made, the table of labels stays as it is.
Making that pass again adds the same addresses each time: all that it recorded before, if it has
defined no label, and otherwise those in front of the first label, at which it then fails
(`Repeats`). The second pass changes nothing.
-/

namespace Rv32Asm

/-! ### Calls -/

/-- A call of one of the passes of an assembler. -/
inductive Call
  | pass1 | pass2
  deriving DecidableEq

namespace Assembler

/-- The assembler after a call. -/
def call (a : Assembler) : Call → Assembler
  | .pass1 => a.pass1.1
  | .pass2 => a

/-- The assembler after a sequence of calls. -/
def after (a : Assembler) (calls : List Call) : Assembler := calls.foldl call a

@[simp] theorem after_nil (a : Assembler) : a.after [] = a := rfl

@[simp] theorem after_pass1_cons (a : Assembler) (calls : List Call) :
    a.after (.pass1 :: calls) = a.pass1.1.after calls := rfl

@[simp] theorem after_pass2_cons (a : Assembler) (calls : List Call) :
    a.after (.pass2 :: calls) = a.after calls := rfl

theorem after_append (a : Assembler) (calls calls' : List Call) :
    a.after (calls ++ calls') = (a.after calls).after calls' :=
  List.foldl_append

end Assembler

/-! ### Walks over the same program -/

namespace Walk

/-- The walk with addresses that were recorded before it. -/
def behind (w : Walk) (recorded : Array Word) : Walk := { w with pcs := recorded ++ w.pcs }

theorem step_behind (w : Walk) (recorded : Array Word) (item : Item) :
    (w.behind recorded).step item = (w.step item).behind recorded := by
  have hfailure : (w.behind recorded).failure = w.failure := rfl
  rcases step_cases w item with ⟨e, hfailed, h⟩ | ⟨hrunning, hclear, h⟩ | ⟨e, hrunning, hstops, h⟩
  · rw [h, step_of_failed (hfailure.trans hfailed)]
  · have hclear' : (w.behind recorded).Clear item := hclear
    rw [h, step_of_clear (hfailure.trans hrunning) hclear']
    cases item with
    | label name => rfl
    | entry e => simp only [advance, behind, Array.append_push]
  · have hstops' : (w.behind recorded).Stops item e := by
      cases hstops with
      | addressOverflow hcounter => exact .addressOverflow hcounter
      | duplicateLabel hcounter hfound => exact .duplicateLabel hcounter hfound
    rw [h, step_of_stops (hfailure.trans hrunning) hstops']
    rfl

/-- What was recorded before has no influence on a walk. -/
theorem foldl_step_behind (w : Walk) (recorded : Array Word) (p : Program) :
    p.foldl step (w.behind recorded) = (p.foldl step w).behind recorded := by
  induction p generalizing w with
  | nil => rfl
  | cons item p ih => rw [List.foldl_cons, List.foldl_cons, step_behind, ih]

/-- A step takes no label out of the table. -/
theorem extends_step (w : Walk) (item : Item) : (w.step item).labels.Extends w.labels := by
  rcases step_cases w item with ⟨e, -, h⟩ | ⟨-, -, h⟩ | ⟨e, -, -, h⟩
  · rw [h]
    exact .refl _
  · rw [h]
    cases item with
    | label name => exact LabelTable.extends_append _ _
    | entry e => exact .refl _
  · rw [h]
    exact .refl _

theorem extends_foldl_step (w : Walk) (p : Program) :
    (p.foldl step w).labels.Extends w.labels := by
  induction p generalizing w with
  | nil => exact .refl _
  | cons item p ih => exact (ih (w.step item)).trans (extends_step w item)

end Walk

/-! ### In front of the first label -/

namespace Program

/-- The first label of the program is `name`, and `lead` are the entries in front of it. -/
def FirstLabel (p : Program) (lead : List Entry) (name : String) : Prop :=
  ∃ rest : Program, p = lead.map .entry ++ .label name :: rest

theorem entries_or_firstLabel (p : Program) :
    (∃ lead : List Entry, p = lead.map .entry) ∨ ∃ lead name, p.FirstLabel lead name := by
  induction p with
  | nil => exact .inl ⟨[], rfl⟩
  | cons item p ih =>
    cases item with
    | label name => exact .inr ⟨[], name, p, rfl⟩
    | entry e =>
      rcases ih with ⟨lead, rfl⟩ | ⟨lead, name, rest, rfl⟩
      · exact .inl ⟨e :: lead, rfl⟩
      · exact .inr ⟨e :: lead, name, rest, rfl⟩

/-- A program has one first label. -/
theorem FirstLabel.unique {p : Program} {lead lead' : List Entry} {name name' : String}
    (h : p.FirstLabel lead name) (h' : p.FirstLabel lead' name') : lead = lead' ∧ name = name' := by
  obtain ⟨rest, rfl⟩ := h
  obtain ⟨rest', h'⟩ := h'
  induction lead generalizing lead' with
  | nil =>
    cases lead' with
    | nil =>
      cases h'
      exact ⟨rfl, rfl⟩
    | cons e' lead' => cases h'
  | cons e lead ih =>
    cases lead' with
    | nil => cases h'
    | cons e' lead' =>
      obtain ⟨hhead, htail⟩ := List.cons.inj h'
      cases hhead
      obtain ⟨rfl, rfl⟩ := ih htail
      exact ⟨rfl, rfl⟩

theorem entries_map_entry (lead : List Entry) : entries (lead.map .entry) = lead := by
  induction lead with
  | nil => rfl
  | cons e lead ih => exact congrArg (e :: ·) ih

theorem bindings_map_entry (lead : List Entry) (start : Nat) :
    bindings (lead.map .entry) start = [] := by
  induction lead generalizing start with
  | nil => rfl
  | cons e lead ih => exact ih (start + 4)

end Program

namespace Walk

variable {w : Walk} {lead : List Entry} {name : String} {p : Program}

theorem allClear_map_entry (h : w.counter + 4 * lead.length ≤ addressCount) :
    w.AllClear (lead.map .entry) := by
  induction lead generalizing w with
  | nil =>
    intro j item hj
    simp at hj
  | cons e lead ih =>
    rw [List.length_cons] at h
    refine allClear_cons.mpr ⟨⟨by omega, by simp⟩, ih ?_⟩
    change w.counter + 4 + 4 * lead.length ≤ addressCount
    omega

/-- What passing over entries alone records. -/
theorem foldl_advance_map_entry (w : Walk) (lead : List Entry) :
    (lead.map Item.entry).foldl advance w =
      { w with
        counter := w.counter + 4 * lead.length
        pcs := w.pcs ++ (Program.addressesFrom w.counter lead.length).toArray } := by
  rw [foldl_advance, Program.map_snd_placedEntries, Program.entries_map_entry,
    Program.bindings_map_entry, List.append_nil]

theorem labels_step_entry (w : Walk) (e : Entry) : (w.step (.entry e)).labels = w.labels := by
  rcases step_cases w (.entry e) with ⟨_, -, h⟩ | ⟨-, -, h⟩ | ⟨_, -, -, h⟩
  · rw [h]
  · rw [h]
    rfl
  · rw [h]

/-- Entries define no label, whether the walk ends among them or not. -/
theorem labels_foldl_step_map_entry (w : Walk) (lead : List Entry) :
    ((lead.map Item.entry).foldl step w).labels = w.labels := by
  induction lead generalizing w with
  | nil => rfl
  | cons e lead ih => rw [List.map_cons, List.foldl_cons, ih, labels_step_entry]

/-- A walk that cannot pass over an item defines no label any more. -/
theorem labels_foldl_step_of_not_clear {item : Item} (rest : Program) (h : ¬ w.Clear item) :
    ((item :: rest).foldl step w).labels = w.labels := by
  cases hfailure : w.failure with
  | some e => rw [foldl_step_of_failed hfailure]
  | none =>
    obtain ⟨e, he⟩ := exists_stops_of_not_clear h
    rw [List.foldl_cons, step_of_stops hfailure he, foldl_step_of_failed rfl]

/-- A walk that finds its first label in the table ends there. -/
theorem foldl_step_of_found {first : Word} (hfirst : p.FirstLabel lead name)
    (hrunning : w.failure = none) (hcounter : w.counter + 4 * lead.length < addressCount)
    (hfound : w.labels.get? name = some first) :
    p.foldl step w =
      { counter := w.counter + 4 * lead.length
        labels := w.labels
        pcs := w.pcs ++ (Program.addressesFrom w.counter lead.length).toArray
        failure := some (.duplicateLabel name first
          (BitVec.ofNat 32 (w.counter + 4 * lead.length))) } := by
  obtain ⟨rest, rfl⟩ := hfirst
  have hlead : w.AllClear (lead.map .entry) := allClear_map_entry (Nat.le_of_lt hcounter)
  have hrunning' : ((lead.map Item.entry).foldl advance w).failure = none := by
    rw [foldl_advance_map_entry]
    exact hrunning
  have hstops : ((lead.map Item.entry).foldl advance w).Stops (.label name)
      (.duplicateLabel name first (BitVec.ofNat 32 (w.counter + 4 * lead.length))) := by
    rw [foldl_advance_map_entry]
    exact .duplicateLabel hcounter hfound
  rw [List.foldl_append, foldl_step_of_allClear hrunning hlead, List.foldl_cons,
    step_of_stops hrunning' hstops, foldl_step_of_failed rfl, foldl_advance_map_entry]

/-- A walk from the start that defines some label reaches the first and binds it to its address. -/
theorem reaches_firstLabel {origin : Word} (hfirst : p.FirstLabel lead name)
    (h : (p.foldl step (start origin)).labels ≠ .empty) :
    origin.toNat + 4 * lead.length < addressCount ∧
      (p.foldl step (start origin)).labels.get? name =
        some (BitVec.ofNat 32 (origin.toNat + 4 * lead.length)) := by
  obtain ⟨rest, rfl⟩ := hfirst
  rw [List.foldl_append] at h ⊢
  have hempty := labels_foldl_step_map_entry (start origin) lead
  generalize hw : (lead.map Item.entry).foldl step (start origin) = w at h hempty ⊢
  -- otherwise the walk would end with the empty table that it has in front of the label
  have hrunning : w.failure = none := by
    cases hfailure : w.failure with
    | none => rfl
    | some e =>
      rw [foldl_step_of_failed hfailure] at h
      exact absurd hempty h
  have hlabel : w.Clear (.label name) := by
    by_contra hnot
    rw [labels_foldl_step_of_not_clear rest hnot] at h
    exact h hempty
  have hclear : (start origin).AllClear (lead.map .entry) := by
    rw [← failure_foldl_step_eq_none_iff rfl, hw]
    exact hrunning
  have hcounter : w.counter = origin.toNat + 4 * lead.length := by
    rw [← hw, foldl_step_of_allClear rfl hclear, foldl_advance_map_entry]
    rfl
  refine ⟨hcounter ▸ hlabel.1, ?_⟩
  rw [List.foldl_cons, step_of_clear hrunning hlabel]
  apply extends_foldl_step
  change (w.labels.entries ++ [(name, BitVec.ofNat 32 w.counter)]).lookup name = _
  rw [hempty, hcounter]
  exact List.lookup_cons_self

end Walk

/-! ### The first pass again -/

namespace Assembler

/-- An assembler that has recorded nothing. -/
def fresh (p : Program) (origin : Word) : Assembler := ⟨p, origin, .empty, #[]⟩

/-- The assembler with other addresses recorded. -/
def recording (a : Assembler) (recorded : Array Word) : Assembler := { a with pcs := recorded }

/-- What a first pass adds and how it ends if another, `first`, was made before. Unless the other
has defined a label, both do the same; otherwise the first label of the program is found in the
table, at the address that it would be given again. -/
inductive Repeats (p : Program) (origin : Word) (first : Assembler × Except AssemblyError Unit) :
    List Word → Except AssemblyError Unit → Prop
  | unlabelled (h : first.1.labels = .empty) : Repeats p origin first first.1.pcs.toList first.2
  | labelled {lead : List Entry} {name : String} {address : Word}
    (h : first.1.labels ≠ .empty) (hfirst : p.FirstLabel lead name)
    (haddress : address.toNat = origin.toNat + 4 * lead.length) :
    Repeats p origin first (Program.addressesFrom origin.toNat lead.length)
      (.error (.duplicateLabel name address address))

/-- After a first pass that has defined a label, the first label of the program tells what a
repeated pass adds and how it ends. -/
theorem Repeats.eq_of_firstLabel {p : Program} {origin address : Word}
    {first : Assembler × Except AssemblyError Unit} {added : List Word}
    {outcome : Except AssemblyError Unit} {lead : List Entry} {name : String}
    (h : Repeats p origin first added outcome) (hlabels : first.1.labels ≠ .empty)
    (hfirst : p.FirstLabel lead name) (haddress : address.toNat = origin.toNat + 4 * lead.length) :
    added = Program.addressesFrom origin.toNat lead.length ∧
      outcome = .error (.duplicateLabel name address address) := by
  cases h with
  | unlabelled hempty => exact absurd hempty hlabels
  | labelled _ hfirst' haddress' =>
    obtain ⟨rfl, rfl⟩ := hfirst.unique hfirst'
    rw [BitVec.eq_of_toNat_eq (haddress'.trans haddress.symm)]
    exact ⟨rfl, rfl⟩

/-- Addresses that were recorded before stay in front of those that the first pass adds. -/
theorem pass1_recording_append (a : Assembler) (recorded : Array Word) :
    (a.recording (recorded ++ a.pcs)).pass1 =
      (a.pass1.1.recording (recorded ++ a.pass1.1.pcs), a.pass1.2) := by
  have hwalk := Walk.foldl_step_behind ⟨a.origin.toNat, a.labels, a.pcs, none⟩ recorded a.program
  unfold Walk.behind at hwalk
  unfold recording pass1
  simp only [hwalk]

/-- The first pass ends at the first label if the label is in the table. -/
theorem pass1_of_found {a : Assembler} {lead : List Entry} {name : String} {first : Word}
    (hfirst : a.program.FirstLabel lead name)
    (hcounter : a.origin.toNat + 4 * lead.length < addressCount)
    (hfound : a.labels.get? name = some first) :
    a.pass1 = (a.recording (a.pcs ++ (Program.addressesFrom a.origin.toNat lead.length).toArray),
      .error (.duplicateLabel name first
        (BitVec.ofNat 32 (a.origin.toNat + 4 * lead.length)))) := by
  have hwalk := Walk.foldl_step_of_found (w := ⟨a.origin.toNat, a.labels, a.pcs, none⟩) hfirst rfl
    hcounter hfound
  unfold recording pass1
  simp only [hwalk]

variable {p : Program} {origin : Word}

/-- Every first pass but the first does the same, whatever addresses are recorded. -/
theorem exists_repeats (p : Program) (origin : Word) :
    ∃ added outcome, Repeats p origin (fresh p origin).pass1 added outcome ∧
      ∀ recorded, ((fresh p origin).pass1.1.recording recorded).pass1 =
        ((fresh p origin).pass1.1.recording (recorded ++ added.toArray), outcome) := by
  by_cases hlabels : (fresh p origin).pass1.1.labels = .empty
  · refine ⟨_, _, .unlabelled hlabels, ?_⟩
    intro recorded
    -- the table is that of the fresh assembler
    have hstate : (fresh p origin).pass1.1.recording recorded =
        (fresh p origin).recording (recorded ++ (fresh p origin).pcs) := by
      change Assembler.mk p origin (fresh p origin).pass1.1.labels recorded =
        ⟨p, origin, .empty, recorded ++ #[]⟩
      rw [hlabels, Array.append_empty]
    rw [hstate, pass1_recording_append, Array.toArray_toList]
  · rcases p.entries_or_firstLabel with ⟨lead, rfl⟩ | ⟨lead, name, hfirst⟩
    · exact absurd (Walk.labels_foldl_step_map_entry (Walk.start origin) lead) hlabels
    · obtain ⟨hcounter, hfound⟩ : origin.toNat + 4 * lead.length < addressCount ∧ _ :=
        Walk.reaches_firstLabel hfirst hlabels
      have haddress : (BitVec.ofNat 32 (origin.toNat + 4 * lead.length)).toNat =
          origin.toNat + 4 * lead.length := by
        rw [BitVec.toNat_ofNat]
        exact Nat.mod_eq_of_lt hcounter
      refine ⟨_, _, .labelled hlabels hfirst haddress, ?_⟩
      intro recorded
      exact pass1_of_found hfirst hcounter hfound

/-! ### Sequences of calls -/

/-- Calls on an assembler whose first pass always adds the same. -/
theorem after_recording {a : Assembler} {added : List Word} {outcome : Except AssemblyError Unit}
    (hpass1 : ∀ recorded, (a.recording recorded).pass1 =
      (a.recording (recorded ++ added.toArray), outcome))
    (recorded : Array Word) (calls : List Call) :
    (a.recording recorded).after calls =
      a.recording (recorded ++ (List.replicate (calls.count .pass1) added).flatten.toArray) := by
  induction calls generalizing recorded with
  | nil => simp
  | cons c calls ih =>
    cases c with
    | pass1 =>
      rw [after_pass1_cons, hpass1, ih, List.count_cons_self, List.replicate_succ,
        List.flatten_cons]
      simp
    | pass2 => rw [after_pass2_cons, ih, List.count_cons_of_ne (by decide)]

/-- The state after calls that include the first pass: its table, and the addresses that the first
pass has recorded with those that each later one has added. -/
theorem after_of_mem {a : Assembler} {added : List Word} {outcome : Except AssemblyError Unit}
    (hpass1 : ∀ recorded, (a.pass1.1.recording recorded).pass1 =
      (a.pass1.1.recording (recorded ++ added.toArray), outcome))
    {calls : List Call} (hmem : .pass1 ∈ calls) :
    a.after calls = a.pass1.1.recording (a.pass1.1.pcs ++
      (List.replicate (calls.count .pass1 - 1) added).flatten.toArray) := by
  induction calls with
  | nil => cases hmem
  | cons c calls ih =>
    cases c with
    | pass1 =>
      rw [after_pass1_cons, List.count_cons_self, Nat.add_sub_cancel]
      exact after_recording hpass1 a.pass1.1.pcs calls
    | pass2 =>
      rw [after_pass2_cons, List.count_cons_of_ne (by decide)]
      exact ih (by simpa using hmem)

/-- Addresses that are recorded once every entry has one are not read. -/
theorem pass2_recording_append {a : Assembler} (hpcs : a.pcs.size = a.program.entries.length)
    (added : Array Word) : (a.recording (a.pcs ++ added)).pass2 = a.pass2 := by
  have hplaced : (a.recording (a.pcs ++ added)).placed = a.placed := by
    have hzip : (a.program.entries ++ []).zip (a.pcs.toList ++ added.toList) =
        a.program.entries.zip a.pcs.toList ++ [].zip added.toList :=
      List.zip_append (by simpa using hpcs.symm)
    simpa [placed, recording] using hzip
  unfold pass2
  rw [hplaced]
  rfl

theorem size_pcs_of_pass1_eq_ok (h : (fresh p origin).pass1.2 = .ok ()) :
    (fresh p origin).pass1.1.pcs.size = p.entries.length := by
  rw [pass1_fst h]
  simp [fresh, Program.length_placedEntries]

/-- Assembly is the second pass of an assembler whose first pass has succeeded. -/
theorem instructions_assemble (haligned : origin.toNat % 4 = 0)
    (h : (fresh p origin).pass1.2 = .ok ()) :
    Assembly.instructions <$> assemble p origin = (fresh p origin).pass1.1.pass2 := by
  unfold fresh at h ⊢
  rw [assemble_of_aligned haligned, h]
  cases (pass1 ⟨p, origin, .empty, #[]⟩).1.pass2 with
  | ok insts => rfl
  | error e => rfl

/-- The state of an assembler under repeated passes. The second pass changes nothing. After any
calls with the first pass among them, the table is the one that the first of these left, and the
addresses are those that it recorded, followed by the same addition for each later one, which all
end alike. If the first of them succeeded, the second pass gives what assembly gives. -/
theorem state_of_repeated_passes (haligned : origin.toNat % 4 = 0) :
    new p origin = .ok (fresh p origin) ∧
      (∀ before rest, (fresh p origin).after (before ++ .pass2 :: rest) =
        (fresh p origin).after (before ++ rest)) ∧
      ∃ added outcome, Repeats p origin (fresh p origin).pass1 added outcome ∧
        ∀ calls, .pass1 ∈ calls →
          (fresh p origin).after calls =
              { program := p
                origin := origin
                labels := (fresh p origin).pass1.1.labels
                pcs := (fresh p origin).pass1.1.pcs ++
                  (List.replicate (calls.count .pass1 - 1) added).flatten.toArray } ∧
            ((fresh p origin).after calls).pass1.2 = outcome ∧
            ((fresh p origin).pass1.2 = .ok () →
              ((fresh p origin).after calls).pass2 =
                Assembly.instructions <$> assemble p origin) := by
  refine ⟨new_eq_ok_iff.mpr ⟨haligned, rfl⟩, ?_, ?_⟩
  · intro before rest
    rw [after_append, after_append, after_pass2_cons]
  · obtain ⟨added, outcome, hrepeats, hagain⟩ := exists_repeats p origin
    refine ⟨added, outcome, hrepeats, ?_⟩
    intro calls hmem
    have hstate := after_of_mem hagain hmem
    refine ⟨hstate, ?_, ?_⟩
    · rw [hstate, hagain]
    · intro hok
      rw [hstate, instructions_assemble haligned hok]
      exact pass2_recording_append (size_pcs_of_pass1_eq_ok hok) _

/-- A program that declares its only label twice. -/
def declaredTwice : Program :=
  [.entry (.concrete (.u .lui 5 0x04000)), .label "a", .label "a"]

/-- A program whose first pass succeeds once: it ends with a branch to itself. -/
def endlessBranch : Program :=
  [.entry (.concrete (.u .lui 5 0x04000)), .label "a",
    .entry (.pending (.branch (.branch .beq) 1 2 "a"))]

/-- A label that is declared again is still found when the pass is repeated, and the addresses in
front of it are recorded again. If the first pass has succeeded, the second pass does not mind. -/
theorem state_after_retry :
    new declaredTwice 0x100#32 = .ok (fresh declaredTwice 0x100#32) ∧
      (fresh declaredTwice 0x100#32).after [.pass1, .pass2, .pass1] =
        ⟨declaredTwice, 0x100#32, ⟨[("a", 0x104#32)]⟩, #[0x100#32, 0x100#32]⟩ ∧
      ((fresh declaredTwice 0x100#32).after [.pass1, .pass2, .pass1]).pass1.2 =
        .error (.duplicateLabel "a" 0x104#32 0x104#32) ∧
      ((fresh declaredTwice 0x100#32).after [.pass1, .pass2, .pass1]).pass2 =
        .ok [.u .lui 5 0x04000] ∧
      (fresh endlessBranch 0x100#32).after [.pass1, .pass2, .pass1] =
        ⟨endlessBranch, 0x100#32, ⟨[("a", 0x104#32)]⟩, #[0x100#32, 0x104#32, 0x100#32]⟩ ∧
      ((fresh endlessBranch 0x100#32).after [.pass1, .pass2, .pass1]).pass1.2 =
        .error (.duplicateLabel "a" 0x104#32 0x104#32) ∧
      ((fresh endlessBranch 0x100#32).after [.pass1, .pass2, .pass1]).pass2 =
        .ok [.u .lui 5 0x04000, .b 0b000 1 2 0] := by
  have haligned : (0x100#32).toNat % 4 = 0 := by decide
  have hcalls : Call.pass1 ∈ [Call.pass1, .pass2, .pass1] := by decide
  obtain ⟨hnew, -, added, outcome, hrepeats, hafter⟩ :=
    state_of_repeated_passes (p := declaredTwice) haligned
  obtain ⟨-, -, added', outcome', hrepeats', hafter'⟩ :=
    state_of_repeated_passes (p := endlessBranch) haligned
  have hfirst : declaredTwice.FirstLabel [.concrete (.u .lui 5 0x04000)] "a" := ⟨_, rfl⟩
  have hfirst' : endlessBranch.FirstLabel [.concrete (.u .lui 5 0x04000)] "a" := ⟨_, rfl⟩
  have haddress : (0x104#32).toNat = (0x100#32).toNat + 4 * 1 := rfl
  obtain ⟨rfl, rfl⟩ := hrepeats.eq_of_firstLabel nofun hfirst haddress
  obtain ⟨rfl, rfl⟩ := hrepeats'.eq_of_firstLabel nofun hfirst' haddress
  obtain ⟨hstate, houtcome, -⟩ := hafter _ hcalls
  obtain ⟨hstate', houtcome', hpass2'⟩ := hafter' _ hcalls
  refine ⟨hnew, hstate, houtcome, ?_, hstate', houtcome', ?_⟩
  · rw [hstate]
    rfl
  · rw [hpass2' rfl]
    rfl

end Assembler

end Rv32Asm

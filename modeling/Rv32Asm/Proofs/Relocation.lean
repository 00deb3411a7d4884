import Mathlib
import Rv32Asm.Proofs.Failure

/-!
# Moving a program

Two runs of the assembler are compared whose addresses lie a fixed distance apart. A reference is
resolved over the distance to its label alone, so both runs give the same instructions, or they fail
for the same reason at addresses that lie that distance apart (`MovedResult`). Only the end of the
address space can tell two origins from each other.
-/

namespace Rv32Asm

/-! ### Errors and results of moved programs -/

/-- The errors say the same, and every address of the second lies `distance` past that of the
first. -/
inductive AssemblyError.Moved (distance : Int) : AssemblyError → AssemblyError → Prop
  | duplicateLabel {name : String} {first second first' second' : Word}
    (hfirst : (first'.toNat : Int) = first.toNat + distance)
    (hsecond : (second'.toNat : Int) = second.toNat + distance) :
    Moved distance (.duplicateLabel name first second) (.duplicateLabel name first' second')
  | undefinedLabel {name : String} {pc pc' : Word} (hpc : (pc'.toNat : Int) = pc.toNat + distance) :
    Moved distance (.undefinedLabel name pc) (.undefinedLabel name pc')
  | encoding {cause : FieldError} {pc pc' : Word} (hpc : (pc'.toNat : Int) = pc.toNat + distance) :
    Moved distance (.encoding pc cause) (.encoding pc' cause)
  | notABranch {mnemonic : Mnemonic} {pc pc' : Word}
    (hpc : (pc'.toNat : Int) = pc.toNat + distance) :
    Moved distance (.notABranch mnemonic pc) (.notABranch mnemonic pc')

/-- Both computations give the same value, or errors that differ by the distance only. -/
inductive MovedResult (distance : Int) {α : Type} :
    Except AssemblyError α → Except AssemblyError α → Prop
  | ok (a : α) : MovedResult distance (.ok a) (.ok a)
  | error {e e' : AssemblyError} (h : e.Moved distance e') :
    MovedResult distance (.error e) (.error e')

namespace MovedResult

variable {distance : Int} {α β : Type}

theorem ok_or_error {x x' : Except AssemblyError α} (h : MovedResult distance x x') :
    (∃ a, x = .ok a ∧ x' = .ok a) ∨
      ∃ e e', x = .error e ∧ x' = .error e' ∧ e.Moved distance e' := by
  cases h with
  | ok a => exact .inl ⟨a, rfl, rfl⟩
  | error he => exact .inr ⟨_, _, rfl, rfl, he⟩

theorem mapError_encoding {pc pc' : Word} (hpc : (pc'.toNat : Int) = pc.toNat + distance)
    (x : Except FieldError α) :
    MovedResult distance (x.mapError (.encoding pc)) (x.mapError (.encoding pc')) := by
  cases x with
  | ok a => exact .ok a
  | error cause => exact .error (.encoding hpc)

/-- A list whose elements give moved results gives a moved result, the first error included. -/
theorem mapM {f g : α → Except AssemblyError β} {l l' : List α}
    (h : List.Forall₂ (fun a a' => MovedResult distance (f a) (g a')) l l') :
    MovedResult distance (l.mapM f) (l'.mapM g) := by
  induction h with
  | nil => exact .ok []
  | cons hhead _ ih =>
    rw [List.mapM_cons, List.mapM_cons]
    rcases hhead.ok_or_error with ⟨b, hb, hb'⟩ | ⟨e, e', he, he', hmoved⟩
    · rw [hb, hb']
      rcases ih.ok_or_error with ⟨bs, hbs, hbs'⟩ | ⟨e, e', he, he', hmoved⟩
      · rw [hbs, hbs']
        exact .ok (b :: bs)
      · rw [he, he']
        exact .error hmoved
    · rw [he, he']
      exact .error hmoved

end MovedResult

/-! ### References at moved addresses -/

namespace Reference

/-- The same reference to another label. -/
def relabel (ref : Reference) (name : String) : Reference :=
  match ref with
  | branch mnemonic rs1 rs2 _ => branch mnemonic rs1 rs2 name
  | jump rd _ => jump rd name

@[simp] theorem relabel_label (ref : Reference) : ref.relabel ref.label = ref := by
  cases ref <;> rfl

/-- If a reference and its label move together, the reference still stands for the same
instruction, whatever the label is called. -/
theorem resolve_relabel_moved {distance : Int} {labels labels' : LabelTable}
    {pc pc' target target' : Word} {ref : Reference} {name : String}
    (h : labels.get? ref.label = some target) (h' : labels'.get? name = some target')
    (hpc : (pc'.toNat : Int) = pc.toNat + distance)
    (htarget : (target'.toNat : Int) = target.toNat + distance) :
    MovedResult distance (ref.resolve labels pc) ((ref.relabel name).resolve labels' pc') := by
  have hoffset : (target'.toNat : Int) - pc'.toNat = target.toNat - pc.toNat := by omega
  cases ref with
  | branch mnemonic rs1 rs2 label =>
    replace h : labels.get? label = some target := h
    rw [relabel]
    by_cases hformat : mnemonic.format = .b
    · obtain ⟨op, rfl⟩ := Mnemonic.format_eq_b_iff.mp hformat
      rw [resolve_branch h, resolve_branch h', hoffset]
      exact .mapError_encoding hpc _
    · rw [resolve_notABranch h hformat, resolve_notABranch h' hformat]
      exact .error (.notABranch hpc)
  | jump rd label =>
    replace h : labels.get? label = some target := h
    rw [relabel, resolve_jump h, resolve_jump h', hoffset]
    exact .mapError_encoding hpc _

end Reference

namespace Program

/-- Entries that correspond to each other one by one are placed the same distance apart. -/
theorem forall₂_placedEntries {R : Entry → Entry → Prop} {p q : Program} {start start' : Nat}
    {distance : Int} (hstart : (start' : Int) = start + distance)
    (hend : start + 4 * p.entries.length ≤ 2 ^ 32)
    (hend' : start' + 4 * q.entries.length ≤ 2 ^ 32) (h : List.Forall₂ R p.entries q.entries) :
    List.Forall₂ (fun placed placed' => R placed.1 placed'.1 ∧
        (placed'.2.toNat : Int) = placed.2.toNat + distance)
      (p.placedEntries start) (q.placedEntries start') := by
  rw [placedEntries_eq_zip, placedEntries_eq_zip]
  generalize p.entries = es, q.entries = es' at h hend hend'
  induction h generalizing start start' with
  | nil => exact .nil
  | @cons e e' es es' hhead _ ih =>
    rw [List.length_cons] at hend hend'
    rw [List.length_cons, List.length_cons, addressesFrom_succ, addressesFrom_succ,
      List.zip_cons_cons, List.zip_cons_cons]
    refine .cons ⟨hhead, ?_⟩ (ih (by omega) (by omega) (by omega))
    rw [BitVec.toNat_ofNat, BitVec.toNat_ofNat, Nat.mod_eq_of_lt (by omega),
      Nat.mod_eq_of_lt (by omega)]
    exact hstart

/-- The second pass over two programs whose entries resolve alike at addresses that lie a distance
apart. -/
theorem mapM_resolve_moved {p q : Program} {start start' : Nat} {distance : Int}
    {labels labels' : LabelTable} (hstart : (start' : Int) = start + distance)
    (hend : start + 4 * p.entries.length ≤ 2 ^ 32)
    (hend' : start' + 4 * q.entries.length ≤ 2 ^ 32)
    (h : List.Forall₂ (fun e e' => ∀ pc pc' : Word, (pc'.toNat : Int) = pc.toNat + distance →
        MovedResult distance (e.resolve labels pc) (e'.resolve labels' pc'))
      p.entries q.entries) :
    MovedResult distance
      ((p.placedEntries start).mapM fun (entry, pc) => entry.resolve labels pc)
      ((q.placedEntries start').mapM fun (entry, pc) => entry.resolve labels' pc) := by
  apply MovedResult.mapM
  apply (forall₂_placedEntries hstart hend hend' h).imp
  intro placed placed' hmoved
  exact hmoved.1 placed.2 placed'.2 hmoved.2

variable {p : Program} {origin origin' : Word}

/-- An entry of a program resolves alike at two origins. -/
theorem resolve_moved (hfits : p.Fits origin) (hfits' : p.Fits origin') (hdistinct : p.Distinct)
    (e : Entry) {pc pc' : Word}
    (hpc : (pc'.toNat : Int) = pc.toNat + ((origin'.toNat : Int) - origin.toNat)) :
    MovedResult ((origin'.toNat : Int) - origin.toNat)
      (e.resolve ⟨p.bindings origin.toNat⟩ pc) (e.resolve ⟨p.bindings origin'.toNat⟩ pc') := by
  cases e with
  | concrete inst => exact .ok inst
  | pending ref =>
    rw [Entry.resolve_pending, Entry.resolve_pending]
    by_cases hdeclared : ∃ l : Nat, p[l]? = some (.label ref.label)
    · obtain ⟨l, hl⟩ := hdeclared
      have hget := get?_bindings origin.toNat hdistinct hl
      have hget' := get?_bindings origin'.toNat hdistinct hl
      have hmoved := Reference.resolve_relabel_moved hget hget' hpc (by
        rw [toNat_addressAt hfits hl, toNat_addressAt hfits' hl]
        unfold addressAt
        omega)
      rwa [Reference.relabel_label] at hmoved
    · have hnowhere : ∀ start, LabelTable.get? ⟨p.bindings start⟩ ref.label = none := by
        intro start
        apply lookup_bindings_eq_none_iff.mpr
        intro l hl
        exact hdeclared ⟨l, hl⟩
      rw [Reference.resolve_of_get?_eq_none (hnowhere _),
        Reference.resolve_of_get?_eq_none (hnowhere _)]
      exact .error (.undefinedLabel hpc)

end Program

/-! ### Both passes -/

namespace Program

variable {p : Program} {origin origin' : Word}

theorem not_distinct_of_blockedError {j : Nat} {e : AssemblyError}
    (herror : p.BlockedError origin j e) (hne : e ≠ .addressOverflow) : ¬ p.Distinct := by
  cases herror with
  | addressOverflow hpast => exact absurd rfl hne
  | duplicateLabel hfits hj hearlier hl =>
    intro hdistinct
    have heq := hdistinct _ _ _ hj hl
    omega

/-- If two origins are both stopped by a label that is declared again, it is the same label. -/
theorem moved_of_firstBlocked {j j' : Nat} {e e' : AssemblyError}
    (hfirst : p.FirstBlocked origin j) (herror : p.BlockedError origin j e)
    (hne : e ≠ .addressOverflow) (hfirst' : p.FirstBlocked origin' j')
    (herror' : p.BlockedError origin' j' e') (hne' : e' ≠ .addressOverflow) :
    e.Moved ((origin'.toNat : Int) - origin.toNat) e' := by
  cases herror with
  | addressOverflow hpast => exact absurd rfl hne
  | @duplicateLabel l name first second hfits hj hearlier hl hleast hfirstAddress hsecondAddress =>
    cases herror' with
    | addressOverflow hpast => exact absurd rfl hne'
    | @duplicateLabel l' name' first' second' hfits' hj' hearlier' hl' hleast' hfirstAddress'
        hsecondAddress' =>
      -- that a label is declared again does not depend on the origin
      have hindex : j = j' := by
        rcases Nat.lt_trichotomy j j' with hlt | heq | hgt
        · exact absurd (.inr ⟨name, hj, l, hearlier, hl⟩) (hfirst'.first j hlt)
        · exact heq
        · exact absurd (.inr ⟨name', hj', l', hearlier', hl'⟩) (hfirst.first j' hgt)
      subst hindex
      rw [hj] at hj'
      cases hj'
      have hdeclaration : l = l' := by
        rcases Nat.lt_trichotomy l l' with hlt | heq | hgt
        · exact absurd hl (hleast' l hlt)
        · exact heq
        · exact absurd hl' (hleast l' hgt)
      subst hdeclaration
      unfold addressAt at hfirstAddress hfirstAddress' hsecondAddress hsecondAddress'
      exact .duplicateLabel (by omega) (by omega)

end Program

section Origins

variable {p : Program} {origin origin' : Word}

/-- Unless the address space ends too early, the first pass stops exactly at a label that is
declared again. -/
theorem allClear_or_firstBlocked (haligned : origin.toNat % 4 = 0)
    (h : assemble p origin ≠ .error .addressOverflow) :
    (Walk.start origin).AllClear p ∧ p.Distinct ∨
      ¬ p.Distinct ∧ ∃ j e, p.FirstBlocked origin j ∧ p.BlockedError origin j e ∧
        e ≠ .addressOverflow ∧ assemble p origin = .error e := by
  cases hfailure : (p.foldl Walk.step (Walk.start origin)).failure with
  | none =>
    have hclear := (Walk.failure_foldl_step_eq_none_iff rfl).mp hfailure
    exact .inl ⟨hclear, ((Walk.allClear_start_iff p origin).mp hclear).2⟩
  | some e =>
    obtain ⟨j, hfirst, herror⟩ := Walk.failure_start_eq_some_iff.mp hfailure
    have hassemble := assemble_of_failure haligned hfailure
    have hne : e ≠ .addressOverflow := by
      intro hoverflow
      rw [hassemble, hoverflow] at h
      exact h rfl
    have hagain := Program.not_distinct_of_blockedError herror hne
    exact .inr ⟨hagain, j, e, hfirst, herror, hne, hassemble⟩

/-- Assembly is position independent. At two origins for which the address space is large enough, a
program becomes the same instructions, or it fails for the same reason, with every address moved by
the distance between the origins. -/
theorem assemble_position_independent (haligned : origin.toNat % 4 = 0)
    (haligned' : origin'.toNat % 4 = 0) (h : assemble p origin ≠ .error .addressOverflow)
    (h' : assemble p origin' ≠ .error .addressOverflow) :
    (∃ insts, assemble p origin = .ok ⟨origin, insts⟩ ∧
        assemble p origin' = .ok ⟨origin', insts⟩) ∨
      ∃ e e', assemble p origin = .error e ∧ assemble p origin' = .error e' ∧
        e.Moved ((origin'.toNat : Int) - origin.toNat) e' := by
  rcases allClear_or_firstBlocked haligned h with
    ⟨hclear, hdistinct⟩ | ⟨hagain, j, e, hfirst, herror, hne, hassemble⟩
  · -- no label is declared twice, so the first pass succeeds at the other origin too
    obtain ⟨hclear', -⟩ := (allClear_or_firstBlocked haligned' h').resolve_right
      fun hblocked => hblocked.1 hdistinct
    obtain ⟨hfits, -⟩ := (Walk.allClear_start_iff p origin).mp hclear
    obtain ⟨hfits', -⟩ := (Walk.allClear_start_iff p origin').mp hclear'
    have hmoved := Program.mapM_resolve_moved (by omega)
      (Program.end_le_of_fits haligned hfits) (Program.end_le_of_fits haligned' hfits')
      (List.forall₂_same.mpr fun e _ pc pc' => Program.resolve_moved hfits hfits' hdistinct e)
    rw [assemble_of_allClear haligned hclear, assemble_of_allClear haligned' hclear']
    rcases hmoved.ok_or_error with ⟨insts, hok, hok'⟩ | ⟨e, e', herror, herror', he⟩
    · rw [hok, hok']
      exact .inl ⟨insts, rfl, rfl⟩
    · rw [herror, herror']
      exact .inr ⟨e, e', rfl, rfl, he⟩
  · obtain ⟨-, j', e', hfirst', herror', hne', hassemble'⟩ :=
      (allClear_or_firstBlocked haligned' h').resolve_left fun hclear => hagain hclear.2
    have hmoved := Program.moved_of_firstBlocked hfirst herror hne hfirst' herror' hne'
    exact .inr ⟨e, e', hassemble, hassemble', hmoved⟩

end Origins

/-- A program with a branch forwards and a jump backwards. -/
def bothWays : Program :=
  [.label "a", .entry (.pending (.branch (.branch .beq) 1 2 "b")),
    .entry (.pending (.jump 0 "a")), .label "b", .entry (.concrete (.u .lui 5 0x04000))]

/-- A program that refers to a label that it does not declare. -/
def danglingJump : Program :=
  [.entry (.concrete (.u .lui 5 0x04000)), .entry (.pending (.jump 1 "a"))]

/-- Programs at the start and at the end of the address space: one with references in both
directions, one that declares a label again, and one that does not declare the label it refers
to. -/
theorem assemble_moved_to_last_words :
    (assemble bothWays 0#32 = .ok ⟨0#32, [.b 0b000 1 2 4, .j 0 (-2), .u .lui 5 0x04000]⟩ ∧
      assemble bothWays 0xfffffff4#32 =
        .ok ⟨0xfffffff4#32, [.b 0b000 1 2 4, .j 0 (-2), .u .lui 5 0x04000]⟩) ∧
    (assemble [.label "a", .entry (.concrete (.u .lui 5 0x04000)), .label "a"] 0#32 =
        .error (.duplicateLabel "a" 0#32 4#32) ∧
      ∃ e, assemble [.label "a", .entry (.concrete (.u .lui 5 0x04000)), .label "a"]
          0xfffffff8#32 = .error e ∧
        (AssemblyError.duplicateLabel "a" 0#32 4#32).Moved 0xfffffff8 e) ∧
    assemble danglingJump 0#32 = .error (.undefinedLabel "a" 4#32) ∧
      ∃ e, assemble danglingJump 0xfffffff8#32 = .error e ∧
        (AssemblyError.undefinedLabel "a" 4#32).Moved 0xfffffff8 e := by
  refine ⟨?_, ?_, ?_⟩
  · have h : assemble bothWays 0#32 =
        .ok ⟨0#32, [.b 0b000 1 2 4, .j 0 (-2), .u .lui 5 0x04000]⟩ := by rfl
    have hinside : assemble bothWays 0#32 ≠ .error .addressOverflow := by
      rw [h]
      nofun
    have hinside' : assemble bothWays 0xfffffff4#32 ≠ .error .addressOverflow := by
      decide +kernel
    rcases assemble_position_independent (by decide) (by decide) hinside hinside' with
      ⟨insts, hok, hok'⟩ | ⟨e, e', he, -⟩
    · rw [h] at hok
      cases hok
      exact ⟨h, hok'⟩
    · rw [h] at he
      cases he
  · have h : assemble [.label "a", .entry (.concrete (.u .lui 5 0x04000)), .label "a"] 0#32 =
        .error (.duplicateLabel "a" 0#32 4#32) := by rfl
    have hinside : assemble [.label "a", .entry (.concrete (.u .lui 5 0x04000)), .label "a"]
        0#32 ≠ .error .addressOverflow := by
      rw [h]
      nofun
    have hinside' : assemble [.label "a", .entry (.concrete (.u .lui 5 0x04000)), .label "a"]
        0xfffffff8#32 ≠ .error .addressOverflow := by decide +kernel
    rcases assemble_position_independent (by decide) (by decide) hinside hinside' with
      ⟨insts, hok, -⟩ | ⟨e, e', he, he', hmoved⟩
    · rw [h] at hok
      cases hok
    · rw [h] at he
      cases he
      exact ⟨h, e', he', hmoved⟩
  · have h : assemble danglingJump 0#32 = .error (.undefinedLabel "a" 4#32) := by rfl
    have hinside : assemble danglingJump 0#32 ≠ .error .addressOverflow := by
      rw [h]
      nofun
    have hinside' : assemble danglingJump 0xfffffff8#32 ≠ .error .addressOverflow := by
      decide +kernel
    rcases assemble_position_independent (by decide) (by decide) hinside hinside' with
      ⟨insts, hok, -⟩ | ⟨e, e', he, he', hmoved⟩
    · rw [h] at hok
      cases hok
    · rw [h] at he
      cases he
      exact ⟨h, e', he', hmoved⟩

end Rv32Asm

import Mathlib
import Rv32Asm.Proofs.Assemble

/-!
# The first failure

Why a program cannot be assembled, said in terms of the program and its origin alone
(`FirstFailure`). A misaligned origin comes before all else. Then the items are passed over in
order, and the first that is `Blocked` is reported. If there is none, the references are resolved in
order, and the first that is not `Resolvable` is reported. All addresses are those of the items and
do not wrap.
-/

namespace Rv32Asm

namespace Program

/-! ### The specification -/

/-- The item at index `j` cannot be passed over: it lies past the last address, or it declares a
label that an earlier item declares. -/
def Blocked (p : Program) (origin : Word) (j : Nat) : Prop :=
  2 ^ 32 ≤ p.addressAt origin.toNat j ∨
    ∃ name, p[j]? = some (.label name) ∧ ∃ l < j, p[l]? = some (.label name)

/-- The item at index `j` is the first that cannot be passed over. -/
structure FirstBlocked (p : Program) (origin : Word) (j : Nat) : Prop where
  within : j < p.length
  blocked : p.Blocked origin j
  first : ∀ k < j, ¬ p.Blocked origin k

/-- The error at an item that cannot be passed over. That the item lies past the last address comes
before a label that is declared again. -/
inductive BlockedError (p : Program) (origin : Word) (j : Nat) : AssemblyError → Prop
  | addressOverflow (hpast : 2 ^ 32 ≤ p.addressAt origin.toNat j) :
    BlockedError p origin j .addressOverflow
  | duplicateLabel {l : Nat} {name : String} {first second : Word}
    (hfits : p.addressAt origin.toNat j < 2 ^ 32) (hj : p[j]? = some (.label name))
    (hearlier : l < j) (hl : p[l]? = some (.label name))
    (hfirst : ∀ k < l, p[k]? ≠ some (.label name))
    (hfirstAddress : first.toNat = p.addressAt origin.toNat l)
    (hsecondAddress : second.toNat = p.addressAt origin.toNat j) :
    BlockedError p origin j (.duplicateLabel name first second)

/-- The reference at index `j` names a label that is declared and in reach. -/
def Resolvable (p : Program) (origin : Word) (j : Nat) (ref : Reference) : Prop :=
  ∃ l : Nat, p[l]? = some (.label ref.label) ∧
    ref.InReach ((p.addressAt origin.toNat l : Int) - p.addressAt origin.toNat j)

/-- All items can be passed over, and the reference at index `j` is the first that cannot be
resolved. -/
structure FirstUnresolved (p : Program) (origin : Word) (j : Nat) (ref : Reference) : Prop where
  passed : ∀ k < p.length, ¬ p.Blocked origin k
  pending : p[j]? = some (.entry (.pending ref))
  unresolved : ¬ p.Resolvable origin j ref
  first : ∀ k < j, ∀ ref', p[k]? = some (.entry (.pending ref')) → p.Resolvable origin k ref'

/-- The error of a reference at index `j` that cannot be resolved: its label is declared nowhere, or
it is, and the reference cannot reach over the distance to the label. -/
inductive UnresolvedError (p : Program) (origin : Word) (j : Nat) (ref : Reference) :
    AssemblyError → Prop
  | undefinedLabel {pc : Word} (hpc : pc.toNat = p.addressAt origin.toNat j)
    (hnowhere : ∀ l : Nat, p[l]? ≠ some (.label ref.label)) :
    UnresolvedError p origin j ref (.undefinedLabel ref.label pc)
  | outOfReach {pc : Word} {l : Nat} (hpc : pc.toNat = p.addressAt origin.toNat j)
    (hl : p[l]? = some (.label ref.label)) :
    UnresolvedError p origin j ref
      (ref.refusal pc ((p.addressAt origin.toNat l : Int) - p.addressAt origin.toNat j))

/-- The reason for which a program cannot be assembled. -/
inductive FirstFailure (p : Program) (origin : Word) : AssemblyError → Prop
  | misalignedOrigin (hmisaligned : origin.toNat % 4 ≠ 0) :
    FirstFailure p origin (.misalignedOrigin origin)
  | blocked {j : Nat} {e : AssemblyError} (haligned : origin.toNat % 4 = 0)
    (hfirst : p.FirstBlocked origin j) (herror : p.BlockedError origin j e) :
    FirstFailure p origin e
  | unresolved {j : Nat} {ref : Reference} {e : AssemblyError} (haligned : origin.toNat % 4 = 0)
    (hfirst : p.FirstUnresolved origin j ref) (herror : p.UnresolvedError origin j ref e) :
    FirstFailure p origin e

end Program

/-! ### The first pass -/

namespace Walk

variable {p : Program} {origin : Word}

/-- The labels in the table in front of index `j` have the address of their first declaration. -/
theorem get?_before_eq_some_iff {j : Nat} {name : String} {first : Word} :
    ((p.take j).foldl advance (start origin)).labels.get? name = some first ↔
      ∃ l < j, p[l]? = some (.label name) ∧ (∀ k < l, p[k]? ≠ some (.label name)) ∧
        first = BitVec.ofNat 32 (p.addressAt origin.toNat l) := by
  rw [labels_before]
  change (Program.bindings (p.take j) origin.toNat).lookup name = some first ↔ _
  rw [Program.lookup_bindings_eq_some_iff]
  constructor
  · intro h
    obtain ⟨l, hl, hfirst, haddress⟩ := h
    have hlj : l < j := by
      by_contra hge
      rw [List.getElem?_take_eq_none (by omega)] at hl
      cases hl
    rw [List.getElem?_take_of_lt hlj] at hl
    rw [Program.addressAt_take p _ (Nat.le_of_lt hlj)] at haddress
    refine ⟨l, hlj, hl, ?_, haddress⟩
    intro k hk
    have hkfirst := hfirst k hk
    rwa [List.getElem?_take_of_lt (by omega)] at hkfirst
  · intro h
    obtain ⟨l, hlj, hl, hfirst, haddress⟩ := h
    refine ⟨l, ?_, ?_, ?_⟩
    · rwa [List.getElem?_take_of_lt hlj]
    · intro k hk
      rw [List.getElem?_take_of_lt (by omega)]
      exact hfirst k hk
    · rwa [Program.addressAt_take p _ (Nat.le_of_lt hlj)]

/-- The walk can pass over the item at index `j` exactly if the item is not blocked. -/
theorem clear_before_iff {j : Nat} {item : Item} (hj : p[j]? = some item) :
    ((p.take j).foldl advance (start origin)).Clear item ↔ ¬ p.Blocked origin j := by
  have hcount : addressCount = 2 ^ 32 := rfl
  unfold Clear Program.Blocked
  rw [counter_before, hcount, not_or, Nat.not_le]
  apply and_congr_right
  intro _
  constructor
  · intro hfresh hagain
    obtain ⟨name, hname, l, hl, hsame⟩ := hagain
    rw [hj] at hname
    exact get?_before_eq_none_iff.mp (hfresh name (Option.some.inj hname)) l hl hsame
  · intro hnot name hname
    subst hname
    rw [get?_before_eq_none_iff]
    intro l hl hsame
    exact hnot ⟨name, hj, l, hl, hsame⟩

/-- The error with which the walk ends at the item at index `j`. -/
theorem stops_before_iff {j : Nat} {item : Item} {e : AssemblyError} (hj : p[j]? = some item) :
    ((p.take j).foldl advance (start origin)).Stops item e ↔ p.BlockedError origin j e := by
  have hcount : addressCount = 2 ^ 32 := rfl
  constructor
  · intro h
    cases h with
    | addressOverflow hpast =>
      rw [counter_before, hcount] at hpast
      exact .addressOverflow hpast
    | duplicateLabel hcounter hfound =>
      rw [counter_before] at hcounter ⊢
      rw [hcount] at hcounter
      obtain ⟨l, hlj, hl, hfirst, rfl⟩ := get?_before_eq_some_iff.mp hfound
      have hle := p.addressAt_le origin.toNat (Nat.le_of_lt hlj)
      apply Program.BlockedError.duplicateLabel hcounter hj hlj hl hfirst
      · rw [BitVec.toNat_ofNat, Nat.mod_eq_of_lt (Nat.lt_of_le_of_lt hle hcounter)]
      · rw [BitVec.toNat_ofNat, Nat.mod_eq_of_lt hcounter]
  · intro h
    cases h with
    | addressOverflow hpast =>
      apply Stops.addressOverflow
      rwa [counter_before, hcount]
    | @duplicateLabel l name first second hfits hname hearlier hl hfirst hfirstAddress
        hsecondAddress =>
      rw [hj] at hname
      cases hname
      have hsecond : second =
          BitVec.ofNat 32 ((p.take j).foldl advance (start origin)).counter := by
        rw [counter_before, ← hsecondAddress, BitVec.ofNat_toNat, BitVec.setWidth_eq]
      rw [hsecond]
      apply Stops.duplicateLabel
      · rwa [counter_before, hcount]
      · rw [get?_before_eq_some_iff]
        refine ⟨l, hearlier, hl, hfirst, ?_⟩
        rw [← hfirstAddress, BitVec.ofNat_toNat, BitVec.setWidth_eq]

theorem allClear_iff_not_blocked :
    (start origin).AllClear p ↔ ∀ k < p.length, ¬ p.Blocked origin k := by
  constructor
  · intro h k hk
    have hitem := List.getElem?_eq_getElem hk
    exact (clear_before_iff hitem).mp (h k p[k] hitem)
  · intro h k item hitem
    exact (clear_before_iff hitem).mpr (h k (List.getElem?_eq_some_iff.mp hitem).1)

/-- The walk from the start ends with the error of the first blocked item. -/
theorem failure_start_eq_some_iff {e : AssemblyError} :
    (p.foldl step (start origin)).failure = some e ↔
      ∃ j, p.FirstBlocked origin j ∧ p.BlockedError origin j e := by
  rw [failure_foldl_step_eq_some_iff rfl]
  constructor
  · intro h
    obtain ⟨j, item, hj, hfirst, hstops⟩ := h
    have hlength := (List.getElem?_eq_some_iff.mp hj).1
    have hblocked : p.Blocked origin j := by
      by_contra hnot
      exact not_clear_of_stops hstops ((clear_before_iff hj).mpr hnot)
    refine ⟨j, ⟨hlength, hblocked, ?_⟩, (stops_before_iff hj).mp hstops⟩
    intro k hk
    have hitem := List.getElem?_eq_getElem (Nat.lt_trans hk hlength)
    exact (clear_before_iff hitem).mp (hfirst k hk _ hitem)
  · intro h
    obtain ⟨j, hblocked, herror⟩ := h
    have hj := List.getElem?_eq_getElem hblocked.within
    refine ⟨j, _, hj, ?_, (stops_before_iff hj).mpr herror⟩
    intro k hk item hitem
    exact (clear_before_iff hitem).mpr (hblocked.first k hk)

end Walk

/-! ### The second pass -/

namespace Program

variable {p : Program} {origin : Word}

/-- The reference at index `j` is refused exactly if it cannot be resolved, and with the error that
says why. -/
theorem resolve_pending_eq_error_iff {j : Nat} {ref : Reference} {e : AssemblyError}
    (hfits : p.Fits origin) (hdistinct : p.Distinct)
    (h : p[j]? = some (.entry (.pending ref))) :
    ref.resolve ⟨p.bindings origin.toNat⟩ (BitVec.ofNat 32 (p.addressAt origin.toNat j)) =
        .error e ↔
      ¬ p.Resolvable origin j ref ∧ p.UnresolvedError origin j ref e := by
  have hpc := toNat_addressAt hfits h
  -- an address is determined by its number
  have hunique : ∀ pc : Word, pc.toNat = p.addressAt origin.toNat j →
      pc = BitVec.ofNat 32 (p.addressAt origin.toNat j) := by
    intro pc heq
    apply BitVec.eq_of_toNat_eq
    rw [heq, hpc]
  by_cases hdeclared : ∃ l : Nat, p[l]? = some (.label ref.label)
  · obtain ⟨l, hl⟩ := hdeclared
    have hget := get?_bindings origin.toNat hdistinct hl
    have htarget := toNat_addressAt hfits hl
    rw [Reference.resolve_eq_error_iff hget (by rw [hpc, htarget]; exact even_offset p _ j l),
      hpc, htarget]
    constructor
    · intro hrefused
      obtain ⟨hreach, rfl⟩ := hrefused
      refine ⟨?_, .outOfReach hpc hl⟩
      intro hresolvable
      obtain ⟨l', hl', hreach'⟩ := hresolvable
      obtain rfl := hdistinct l' l _ hl' hl
      exact hreach hreach'
    · intro hrefused
      obtain ⟨hunresolved, herror⟩ := hrefused
      refine ⟨fun hreach => hunresolved ⟨l, hl, hreach⟩, ?_⟩
      cases herror with
      | undefinedLabel hpc' hnowhere => exact absurd hl (hnowhere l)
      | outOfReach hpc' hl' =>
        obtain rfl := hdistinct _ l _ hl' hl
        rw [hunique _ hpc']
  · have hnowhere : ∀ l : Nat, p[l]? ≠ some (.label ref.label) := by
      intro l hl
      exact hdeclared ⟨l, hl⟩
    have hget : LabelTable.get? ⟨p.bindings origin.toNat⟩ ref.label = none :=
      lookup_bindings_eq_none_iff.mpr hnowhere
    rw [Reference.resolve_of_get?_eq_none hget]
    constructor
    · intro heq
      cases heq
      refine ⟨?_, .undefinedLabel hpc hnowhere⟩
      intro hresolvable
      obtain ⟨l, hl, -⟩ := hresolvable
      exact hnowhere l hl
    · intro hrefused
      obtain ⟨-, herror⟩ := hrefused
      cases herror with
      | undefinedLabel hpc' _ => rw [hunique _ hpc']
      | outOfReach _ hl => exact absurd hl (hnowhere _)

/-- Resolving the placed entries ends with the error of the first reference that cannot be
resolved. -/
theorem mapM_resolve_eq_error_iff {e : AssemblyError}
    (hpassed : ∀ k < p.length, ¬ p.Blocked origin k) :
    (p.placedEntries origin.toNat).mapM (fun (entry, pc) =>
        entry.resolve ⟨p.bindings origin.toNat⟩ pc) = .error e ↔
      ∃ j ref, p.FirstUnresolved origin j ref ∧ p.UnresolvedError origin j ref e := by
  have hclear := Walk.allClear_iff_not_blocked.mpr hpassed
  obtain ⟨hfits, hdistinct⟩ := (Walk.allClear_start_iff p origin).mp hclear
  rw [mapM_eq_error_iff]
  constructor
  · intro h
    obtain ⟨i, ⟨entry, pc⟩, hi, herror, hfirst⟩ := h
    obtain ⟨j, hj, rfl, rfl⟩ := exists_of_getElem?_placedEntries hi
    cases entry with
    | concrete given => cases herror
    | pending ref =>
      obtain ⟨hunresolved, herror⟩ := (resolve_pending_eq_error_iff hfits hdistinct hj).mp herror
      refine ⟨j, ref, ⟨hpassed, hj, hunresolved, ?_⟩, herror⟩
      intro k hk ref' href'
      have hplaced := getElem?_placedEntries origin.toNat href'
      have hok := hfirst _ (entriesBefore_lt href' hk) _ hplaced
      exact (exists_resolve_pending_iff hfits hdistinct href').mp hok
  · intro h
    obtain ⟨j, ref, hunresolved, herror⟩ := h
    have hplaced := getElem?_placedEntries origin.toNat hunresolved.pending
    refine ⟨_, _, hplaced, ?_, ?_⟩
    · exact (resolve_pending_eq_error_iff hfits hdistinct hunresolved.pending).mpr
        ⟨hunresolved.unresolved, herror⟩
    · intro i hi placed hplaced'
      obtain ⟨entry, pc⟩ := placed
      obtain ⟨k, hk, rfl, rfl⟩ := exists_of_getElem?_placedEntries hplaced'
      -- the entry comes earlier among the entries, so its item comes earlier in the program
      have hkj : k < j := by
        by_contra hge
        have hle := p.entriesBefore_le (Nat.not_lt.mp hge)
        omega
      cases entry with
      | concrete given => exact ⟨given, rfl⟩
      | pending ref' =>
        exact (exists_resolve_pending_iff hfits hdistinct hk).mpr (hunresolved.first k hkj ref' hk)

end Program

/-! ### Both passes -/

theorem assemble_of_misaligned {p : Program} {origin : Word} (h : origin.toNat % 4 ≠ 0) :
    assemble p origin = .error (.misalignedOrigin origin) := by
  unfold assemble Assembler.new
  rw [if_neg h]
  rfl

theorem assemble_of_aligned {p : Program} {origin : Word} (h : origin.toNat % 4 = 0) :
    assemble p origin =
      (do
        (Assembler.pass1 ⟨p, origin, .empty, #[]⟩).2
        return ⟨origin, ← (Assembler.pass1 ⟨p, origin, .empty, #[]⟩).1.pass2⟩) := by
  rw [assemble_eq, new_eq_ok_iff.mpr ⟨h, rfl⟩]
  rfl

theorem pass1_eq_error_iff {a : Assembler} {e : AssemblyError} :
    a.pass1.2 = .error e ↔
      (a.program.foldl Walk.step ⟨a.origin.toNat, a.labels, a.pcs, none⟩).failure = some e := by
  unfold Assembler.pass1
  cases h : (a.program.foldl Walk.step ⟨a.origin.toNat, a.labels, a.pcs, none⟩).failure with
  | none => simp [h]
  | some e' => simp [h]

theorem assemble_of_failure {p : Program} {origin : Word} {e : AssemblyError}
    (haligned : origin.toNat % 4 = 0)
    (hfailure : (p.foldl Walk.step (Walk.start origin)).failure = some e) :
    assemble p origin = .error e := by
  have hpass1 : (Assembler.pass1 ⟨p, origin, .empty, #[]⟩).2 = .error e :=
    pass1_eq_error_iff.mpr hfailure
  rw [assemble_of_aligned haligned, hpass1]
  rfl

/-- Without an obstacle on the walk, assembly is the resolution of the placed entries. -/
theorem assemble_of_allClear {p : Program} {origin : Word} (haligned : origin.toNat % 4 = 0)
    (hclear : (Walk.start origin).AllClear p) :
    assemble p origin = (fun insts => ⟨origin, insts⟩) <$>
      (p.placedEntries origin.toNat).mapM fun (entry, pc) =>
        entry.resolve ⟨p.bindings origin.toNat⟩ pc := by
  have hpass1 := (pass1_eq_ok_iff ⟨p, origin, .empty, #[]⟩).mpr hclear
  rw [assemble_of_aligned haligned, hpass1, pass1_fst hpass1]
  unfold Assembler.pass2
  rw [placed_eq origin.toNat (by simp)]
  rfl

/-- Assembly fails exactly with the first failure of the program. -/
theorem assemble_eq_error_iff {p : Program} {origin : Word} {e : AssemblyError} :
    assemble p origin = .error e ↔ p.FirstFailure origin e := by
  constructor
  · intro h
    by_cases haligned : origin.toNat % 4 = 0
    · cases hfailure : (p.foldl Walk.step (Walk.start origin)).failure with
      | some e' =>
        rw [assemble_of_failure haligned hfailure] at h
        cases h
        obtain ⟨j, hfirst, herror⟩ := Walk.failure_start_eq_some_iff.mp hfailure
        exact .blocked haligned hfirst herror
      | none =>
        have hclear := (Walk.failure_foldl_step_eq_none_iff rfl).mp hfailure
        have hpassed := Walk.allClear_iff_not_blocked.mp hclear
        rw [assemble_of_allClear haligned hclear, map_eq_error,
          Program.mapM_resolve_eq_error_iff hpassed] at h
        obtain ⟨j, ref, hfirst, herror⟩ := h
        exact .unresolved haligned hfirst herror
    · rw [assemble_of_misaligned haligned] at h
      cases h
      exact .misalignedOrigin haligned
  · intro h
    cases h with
    | misalignedOrigin hmisaligned => exact assemble_of_misaligned hmisaligned
    | blocked haligned hfirst herror =>
      exact assemble_of_failure haligned (Walk.failure_start_eq_some_iff.mpr ⟨_, hfirst, herror⟩)
    | unresolved haligned hfirst herror =>
      have hclear := Walk.allClear_iff_not_blocked.mpr hfirst.passed
      rw [assemble_of_allClear haligned hclear, map_eq_error,
        Program.mapM_resolve_eq_error_iff hfirst.passed]
      exact ⟨_, _, hfirst, herror⟩

/-- No failure of a program is an offset that is not a multiple of two: all items lie a multiple of
four apart. -/
theorem Program.FirstFailure.exists_signedRange {p : Program} {origin pc : Word}
    {cause : FieldError} (h : p.FirstFailure origin (.encoding pc cause)) :
    ∃ value width, (width = 13 ∨ width = 21) ∧ cause = .signedRange value width := by
  generalize he : AssemblyError.encoding pc cause = e at h
  cases h with
  | misalignedOrigin hmisaligned => cases he
  | blocked haligned hfirst herror =>
    cases herror with
    | addressOverflow hpast => cases he
    | duplicateLabel => cases he
  | unresolved haligned hfirst herror =>
    cases herror with
    | undefinedLabel hpc hnowhere => cases he
    | outOfReach hpc hl => exact ⟨_, Reference.exists_signedRange_of_refusal he.symm⟩

/-- Assembly reports the first failure of a program, with the addresses of the items that it lies
at, and an offset that cannot be encoded is always reported as out of range. -/
theorem assemble_reports_first_failure (p : Program) (origin : Word) :
    (∀ e, assemble p origin = .error e ↔ p.FirstFailure origin e) ∧
      ∀ pc cause, assemble p origin = .error (.encoding pc cause) →
        ∃ value width, (width = 13 ∨ width = 21) ∧ cause = .signedRange value width := by
  refine ⟨fun e => assemble_eq_error_iff, ?_⟩
  intro pc cause h
  exact (assemble_eq_error_iff.mp h).exists_signedRange

/-- A label past the last address is reported as such, also if it is declared again. -/
example : assemble [.label "end", .entry (.concrete (.u .lui 5 0x04000)), .label "end"]
    0xfffffffc#32 = .error .addressOverflow := by rfl

end Rv32Asm

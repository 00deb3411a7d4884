import Mathlib
import Rv32Asm.Proofs.Assemble

/-!
# Programs one after the other

A program that is assembled right behind another, with labels of its own, gives the same
instructions in the concatenation of the two. The first pass carries its counter over the seam
(`placedEntries_append`, `bindings_append`), and a larger table resolves what a smaller one
resolves (`Entry.resolve_of_extends`).
-/

namespace Rv32Asm

/-! ### The seam between two programs -/

namespace Program

variable {p q : Program} {origin origin' : Word}

theorem entries_append (p q : Program) : entries (p ++ q) = p.entries ++ q.entries :=
  List.filterMap_append

/-- The second program is placed where the first ends. -/
theorem placedEntries_append (p q : Program) (start : Nat) :
    placedEntries (p ++ q) start =
      p.placedEntries start ++ q.placedEntries (start + 4 * p.entries.length) := by
  induction p generalizing start with
  | nil => rfl
  | cons item p ih =>
    cases item with
    | label name => exact ih start
    | entry e =>
      rw [List.cons_append, placedEntries, placedEntries, ih, entries_entry_cons, List.length_cons,
        List.cons_append]
      congr 3
      omega

theorem bindings_append (p q : Program) (start : Nat) :
    bindings (p ++ q) start =
      p.bindings start ++ q.bindings (start + 4 * p.entries.length) := by
  induction p generalizing start with
  | nil => rfl
  | cons item p ih =>
    cases item with
    | label name => exact congrArg ((name, BitVec.ofNat 32 start) :: ·) (ih start)
    | entry e =>
      rw [List.cons_append, bindings, bindings, ih, entries_entry_cons, List.length_cons]
      congr 2
      omega

theorem addressAt_append_of_le {start j : Nat} (h : j ≤ p.length) :
    addressAt (p ++ q) start j = p.addressAt start j := by
  unfold addressAt entriesBefore
  rw [List.take_append_of_le_length h]

theorem addressAt_append_add (p q : Program) (start k : Nat) :
    addressAt (p ++ q) start (p.length + k) =
      q.addressAt (start + 4 * p.entries.length) k := by
  unfold addressAt entriesBefore
  rw [List.take_length_add_append, entries_append, List.length_append]
  omega

/-- The concatenation lies within the address space if the second program does where the first
ends. -/
theorem fits_append (hfits : p.Fits origin) (hfits' : q.Fits origin')
    (hseam : origin'.toNat = origin.toNat + 4 * p.entries.length) : Fits (p ++ q) origin := by
  intro j hj
  rw [List.length_append] at hj
  rcases Nat.lt_or_ge j p.length with hleft | hright
  · rw [addressAt_append_of_le (Nat.le_of_lt hleft)]
    exact hfits j hleft
  · obtain ⟨k, rfl⟩ := Nat.exists_eq_add_of_le hright
    rw [addressAt_append_add, ← hseam]
    exact hfits' k (by omega)

theorem distinct_append (hdistinct : p.Distinct) (hdistinct' : q.Distinct)
    (hdisjoint : ∀ name, .label name ∈ p → .label name ∉ q) : Distinct (p ++ q) := by
  intro j l name hj hl
  rw [List.getElem?_append] at hj hl
  split at hj
  · split at hl
    · exact hdistinct j l name hj hl
    · exact absurd (List.mem_of_getElem? hl) (hdisjoint name (List.mem_of_getElem? hj))
  · split at hl
    · exact absurd (List.mem_of_getElem? hj) (hdisjoint name (List.mem_of_getElem? hl))
    · have heq := hdistinct' _ _ name hj hl
      omega

/-- The labels of the second program keep their addresses in the table of both. -/
theorem extends_bindings_append (start : Nat)
    (hdisjoint : ∀ name, .label name ∈ p → .label name ∉ q) :
    (⟨bindings (p ++ q) start⟩ : LabelTable).Extends
      ⟨q.bindings (start + 4 * p.entries.length)⟩ := by
  rw [bindings_append]
  apply LabelTable.extends_append_left
  intro name address hfound
  obtain ⟨l, hl, -, -⟩ := lookup_bindings_eq_some_iff.mp hfound
  rw [lookup_bindings_eq_none_iff]
  intro k hk
  exact hdisjoint name (List.mem_of_getElem? hk) (List.mem_of_getElem? hl)

end Program

/-- What a table resolves, a larger table resolves to the same instruction. -/
theorem Entry.resolve_of_extends {labels labels' : LabelTable} {pc : Word} {e : Entry}
    {inst : Instruction} (hextends : labels'.Extends labels)
    (h : e.resolve labels pc = .ok inst) : e.resolve labels' pc = .ok inst := by
  cases e with
  | concrete given => exact h
  | pending ref =>
    rw [Entry.resolve_pending] at h ⊢
    cases hget : labels.get? ref.label with
    | none =>
      rw [Reference.resolve_of_get?_eq_none hget] at h
      cases h
    | some target =>
      unfold Reference.resolve at h ⊢
      rw [hget] at h
      rw [hextends _ _ hget]
      exact h

/-! ### Assembling both -/

/-- Assembly is compositional: a program and another that is assembled where the first ends, without
a label in common, give their instructions one after the other. -/
theorem assemble_append {p q : Program} {origin origin' : Word} {a b : Assembly}
    (ha : assemble p origin = .ok a) (hseam : origin'.toNat = origin.toNat + 4 * a.size)
    (hb : assemble q origin' = .ok b) (hdisjoint : ∀ name, .label name ∈ p → .label name ∉ q) :
    assemble (p ++ q) origin = .ok ⟨origin, a.instructions ++ b.instructions⟩ := by
  obtain ⟨haligned, hclear, -, hresolved⟩ := assemble_eq_ok_iff.mp ha
  obtain ⟨-, hclear', -, hresolved'⟩ := assemble_eq_ok_iff.mp hb
  obtain ⟨hfits, hdistinct⟩ := (Walk.allClear_start_iff p origin).mp hclear
  obtain ⟨hfits', hdistinct'⟩ := (Walk.allClear_start_iff q origin').mp hclear'
  have hlength : a.size = p.entries.length :=
    hresolved.length_eq.symm.trans (p.length_placedEntries origin.toNat)
  rw [hlength] at hseam
  have hclearBoth := (Walk.allClear_start_iff (p ++ q) origin).mpr
    ⟨Program.fits_append hfits hfits' hseam, Program.distinct_append hdistinct hdistinct' hdisjoint⟩
  refine assemble_eq_ok_iff.mpr ⟨haligned, hclearBoth, rfl, ?_⟩
  rw [Program.placedEntries_append]
  apply List.rel_append
  · rw [Program.bindings_append]
    apply hresolved.imp
    intro placed inst h
    exact Entry.resolve_of_extends (LabelTable.extends_append _ _) h
  · rw [← hseam]
    apply hresolved'.imp
    intro placed inst h
    refine Entry.resolve_of_extends ?_ h
    rw [hseam]
    exact Program.extends_bindings_append origin.toNat hdisjoint

/-- Two loops in the last two words of the address space. -/
theorem assemble_two_loops :
    assemble ([.label "a", .entry (.pending (.jump 0 "a"))] ++
        [.label "b", .entry (.pending (.jump 1 "b"))]) 0xfffffff8#32 =
      .ok ⟨0xfffffff8#32, [.j 0 0, .j 1 0]⟩ := by
  have ha : assemble [.label "a", .entry (.pending (.jump 0 "a"))] 0xfffffff8#32 =
      .ok ⟨0xfffffff8#32, [.j 0 0]⟩ := by rfl
  have hb : assemble [.label "b", .entry (.pending (.jump 1 "b"))] 0xfffffffc#32 =
      .ok ⟨0xfffffffc#32, [.j 1 0]⟩ := by rfl
  exact assemble_append ha (by decide) hb (by simp)

end Rv32Asm

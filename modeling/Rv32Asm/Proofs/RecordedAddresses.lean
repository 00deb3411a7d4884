import Mathlib
import Rv32Asm.Proofs.Session

/-!
# Which addresses the second pass takes

The second pass pairs the entries of a program with the recorded addresses by their places alone.
The addresses that the first of the first passes has recorded are those of the entries, also if that
pass ended early. What a later first pass adds then stands in the places of the entries that have no
address yet, and these are resolved at the addresses of other entries (`second_pass_addresses`).
That can only happen once a first pass has failed and is made again.
-/

namespace Rv32Asm

/-! ### What a first pass records -/

namespace Program

@[simp] theorem length_addressesFrom (start count : Nat) :
    (addressesFrom start count).length = count := by
  simp [addressesFrom]

theorem getElem?_addressesFrom_eq_some_iff {start count i : Nat} {pc : Word} :
    (addressesFrom start count)[i]? = some pc ↔
      i < count ∧ pc = BitVec.ofNat 32 (start + 4 * i) := by
  by_cases h : i < count
  · simp [addressesFrom, h, eq_comm]
  · simp [addressesFrom, h]

end Program

namespace Walk

/-- Whether it ends early or not, a walk records the addresses of entries in order, the first of
them at its counter, and all within the address space. -/
theorem exists_pcs_foldl_step (w : Walk) (p : Program) :
    ∃ count ≤ p.entries.length,
      (p.foldl step w).pcs = w.pcs ++ (Program.addressesFrom w.counter count).toArray ∧
        ∀ i < count, w.counter + 4 * i < addressCount := by
  induction p generalizing w with
  | nil => exact ⟨0, Nat.le_refl 0, by simp [Program.addressesFrom], by simp⟩
  | cons item p ih =>
    have hlength : (Program.entries p).length ≤ (Program.entries (item :: p)).length := by
      cases item with
      | label name => rw [Program.entries_label_cons]
      | entry e => rw [Program.entries_entry_cons, List.length_cons]; omega
    rw [List.foldl_cons]
    rcases step_cases w item with ⟨e, -, h⟩ | ⟨-, hclear, h⟩ | ⟨e, -, -, h⟩
    · obtain ⟨count, hle, hpcs⟩ := ih w
      rw [h]
      exact ⟨count, hle.trans hlength, hpcs⟩
    · obtain ⟨count, hle, hpcs, hwithin⟩ := ih (w.advance item)
      rw [h, hpcs]
      cases item with
      | label name => exact ⟨count, hle, rfl, hwithin⟩
      | entry e =>
        refine ⟨count + 1, ?_, ?_, ?_⟩
        · rw [Program.entries_entry_cons, List.length_cons]
          omega
        · rw [Program.addressesFrom_succ]
          simp [advance]
        · intro i hi
          cases i with
          | zero => exact hclear.1
          | succ i =>
            have hrest : w.counter + 4 + 4 * i < addressCount := hwithin i (by omega)
            omega
    · rw [h, foldl_step_of_failed rfl]
      exact ⟨0, Nat.zero_le _, by simp [Program.addressesFrom], by simp⟩

/-- A walk takes back no address. -/
theorem size_pcs_le_foldl_step (w : Walk) (p : Program) :
    w.pcs.size ≤ (p.foldl step w).pcs.size := by
  obtain ⟨count, -, hpcs, -⟩ := exists_pcs_foldl_step w p
  rw [hpcs]
  simp

end Walk

namespace Assembler

variable {p : Program} {origin : Word}

/-- The addresses that the first of the first passes records are those of the entries. -/
theorem getElem?_pcs_pass1_fresh {i : Nat} {pc : Word}
    (h : (fresh p origin).pass1.1.pcs.toList[i]? = some pc) :
    pc.toNat = origin.toNat + 4 * i := by
  obtain ⟨count, -, hpcs, hwithin⟩ := Walk.exists_pcs_foldl_step (Walk.start origin) p
  have hfirst : (fresh p origin).pass1.1.pcs.toList =
      Program.addressesFrom origin.toNat count := by
    change (p.foldl Walk.step (Walk.start origin)).pcs.toList = _
    rw [hpcs]
    simp [Walk.start]
  rw [hfirst, Program.getElem?_addressesFrom_eq_some_iff] at h
  obtain ⟨hi, rfl⟩ := h
  rw [BitVec.toNat_ofNat]
  exact Nat.mod_eq_of_lt (hwithin i hi)

/-- A first pass that has defined a label has recorded all entries in front of the first label. -/
theorem length_lead_le {lead : List Entry} {name : String} (hfirst : p.FirstLabel lead name)
    (hlabels : (fresh p origin).pass1.1.labels ≠ .empty) :
    lead.length ≤ (fresh p origin).pass1.1.pcs.size := by
  obtain ⟨hcounter, -⟩ := Walk.reaches_firstLabel hfirst hlabels
  obtain ⟨rest, rfl⟩ := hfirst
  have hlead : (Walk.start origin).AllClear (lead.map .entry) :=
    Walk.allClear_map_entry (Nat.le_of_lt hcounter)
  calc lead.length
      = ((lead.map Item.entry).foldl Walk.step (Walk.start origin)).pcs.size := by
        rw [Walk.foldl_step_of_allClear rfl hlead, Walk.foldl_advance_map_entry]
        simp [Walk.start]
    _ ≤ ((lead.map Item.entry ++ .label name :: rest).foldl Walk.step
          (Walk.start origin)).pcs.size := by
        rw [List.foldl_append]
        exact Walk.size_pcs_le_foldl_step _ _

/-! ### What later first passes add -/

/-- The elements of a list that is repeated. -/
theorem getElem?_of_flatten_replicate {α : Type} {l : List α} {n i : Nat} {x : α}
    (h : (List.replicate n l).flatten[i]? = some x) : l[i % l.length]? = some x := by
  induction n generalizing i with
  | zero => simp at h
  | succ n ih =>
    rw [List.replicate_succ, List.flatten_cons] at h
    by_cases hi : i < l.length
    · rw [List.getElem?_append_left hi] at h
      rwa [Nat.mod_eq_of_lt hi]
    · rw [List.getElem?_append_right (Nat.le_of_not_lt hi)] at h
      rw [Nat.mod_eq_sub_mod (Nat.le_of_not_lt hi)]
      exact ih h

/-- No call changes the program. -/
theorem program_after (a : Assembler) (calls : List Call) :
    (a.after calls).program = a.program := by
  induction calls generalizing a with
  | nil => rfl
  | cons c calls ih =>
    cases c with
    | pass1 => exact ih a.pass1.1
    | pass2 => exact ih a

/-- Without a first pass nothing is recorded. -/
theorem after_of_not_mem {a : Assembler} {calls : List Call} (h : .pass1 ∉ calls) :
    a.after calls = a := by
  induction calls with
  | nil => rfl
  | cons c calls ih =>
    cases c with
    | pass1 => exact absurd List.mem_cons_self h
    | pass2 =>
      rw [after_pass2_cons]
      exact ih fun hmem => h (List.mem_cons_of_mem _ hmem)

/-- The address at index `i` is not that of the entry there, but of one in front of the first label:
a first pass was made again after one that had failed before it came to the entry. -/
structure Stray (p : Program) (origin : Word) (calls : List Call) (i address : Nat) : Prop where
  failed : (fresh p origin).pass1.2 ≠ .ok ()
  repeated : 2 ≤ calls.count .pass1
  unrecorded : (fresh p origin).pass1.1.pcs.size ≤ i
  address : ∃ lead name, p.FirstLabel lead name ∧
    lead.length ≤ (fresh p origin).pass1.1.pcs.size ∧
    address = origin.toNat + 4 * ((i - (fresh p origin).pass1.1.pcs.size) % lead.length)

/-- What is recorded after any calls: the addresses of entries, and then what later first passes
have added. -/
theorem getElem?_pcs_after {calls : List Call} {i : Nat} {pc : Word} (hi : i < p.entries.length)
    (h : ((fresh p origin).after calls).pcs.toList[i]? = some pc) :
    pc.toNat = origin.toNat + 4 * i ∨ ((fresh p origin).after calls).labels = .empty ∨
      Stray p origin calls i pc.toNat := by
  by_cases hmem : .pass1 ∈ calls
  · obtain ⟨added, outcome, hrepeats, hagain⟩ := exists_repeats p origin
    rw [after_of_mem hagain hmem] at h ⊢
    change ((fresh p origin).pass1.1.pcs ++ _).toList[i]? = some pc at h
    rw [Array.toList_append] at h
    by_cases hfirst : i < (fresh p origin).pass1.1.pcs.size
    · rw [List.getElem?_append_left (by simpa using hfirst)] at h
      exact .inl (getElem?_pcs_pass1_fresh h)
    · rw [List.getElem?_append_right (by simpa using hfirst), Array.length_toList] at h
      have hrepeated : 2 ≤ calls.count .pass1 := by
        by_contra hcount
        have hnone : calls.count .pass1 - 1 = 0 := by omega
        rw [hnone] at h
        simp at h
      have hfailed : (fresh p origin).pass1.2 ≠ .ok () := by
        intro hok
        rw [size_pcs_of_pass1_eq_ok hok] at hfirst
        exact hfirst hi
      right
      cases hrepeats with
      | unlabelled hlabels => exact .inl hlabels
      | @labelled lead name address hlabels hlead haddress =>
        obtain ⟨hcounter, -⟩ := Walk.reaches_firstLabel hlead hlabels
        have hpc := getElem?_of_flatten_replicate h
        rw [Program.length_addressesFrom, Program.getElem?_addressesFrom_eq_some_iff] at hpc
        obtain ⟨hlt, rfl⟩ := hpc
        refine .inr ⟨hfailed, hrepeated, Nat.le_of_not_lt hfirst, lead, name, hlead,
          length_lead_le hlead hlabels, ?_⟩
        rw [BitVec.toNat_ofNat]
        apply Nat.mod_eq_of_lt
        unfold addressCount at hcounter
        omega
  · rw [after_of_not_mem hmem] at h
    simp [fresh] at h

end Assembler

/-! ### What the second pass gives -/

/-- The instruction is what the entry stands for at an address; an entry that is an instruction
stands for itself everywhere. -/
def Entry.ResolvedAt (labels : LabelTable) (address : Nat) (inst : Instruction) : Entry → Prop
  | concrete given => inst = given
  | pending ref => ∃ pc : Word, pc.toNat = address ∧ ref.resolve labels pc = .ok inst

namespace Entry

theorem resolvedAt_of_resolve {labels : LabelTable} {pc : Word} {e : Entry} {inst : Instruction}
    (h : e.resolve labels pc = .ok inst) : e.ResolvedAt labels pc.toNat inst := by
  cases e with
  | concrete given =>
    cases h
    rfl
  | pending ref => exact ⟨pc, rfl, h⟩

/-- No reference can be resolved against the empty table. -/
theorem eq_concrete_of_resolve_empty {pc : Word} {e : Entry} {inst : Instruction}
    (h : e.resolve .empty pc = .ok inst) : e = .concrete inst := by
  cases e with
  | concrete given =>
    cases h
    rfl
  | pending ref =>
    rw [resolve_pending, Reference.resolve_of_get?_eq_none rfl] at h
    cases h

end Entry

namespace Assembler

variable {p : Program} {origin : Word}

/-- What the second pass gives in every state of an assembler: each instruction is the entry in its
place, resolved at the address of the entry or, after a first pass that failed and was made again,
at a stray address. -/
theorem second_pass_addresses {a : Assembler} {calls : List Call} {insts : List Instruction}
    (hnew : new p origin = .ok a) (hpass2 : (a.after calls).pass2 = .ok insts) :
    ∀ (i : Nat) (inst : Instruction), insts[i]? = some inst → ∃ e, p.entries[i]? = some e ∧
      ∃ address, (address = origin.toNat + 4 * i ∨ Stray p origin calls i address) ∧
        e.ResolvedAt (a.after calls).labels address inst := by
  obtain ⟨-, rfl⟩ := new_eq_ok_iff.mp hnew
  intro i inst hinst
  have hresolved := mapM_eq_ok_iff.mp hpass2
  obtain ⟨⟨e, pc⟩, hplaced, hresolve⟩ := getElem?_of_forall₂ hresolved.flip hinst
  replace hresolve : e.resolve ((fresh p origin).after calls).labels pc = .ok inst := hresolve
  obtain ⟨hentry, hpc⟩ := List.getElem?_zip_eq_some.mp hplaced
  rw [program_after] at hentry
  replace hentry : p.entries[i]? = some e := hentry
  refine ⟨e, hentry, ?_⟩
  have hlength : i < p.entries.length := (List.getElem?_eq_some_iff.mp hentry).1
  rcases getElem?_pcs_after hlength hpc with hown | hempty | hstray
  · exact ⟨pc.toNat, .inl hown, Entry.resolvedAt_of_resolve hresolve⟩
  · -- without a label only instructions are left, for which no address counts
    rw [hempty] at hresolve
    obtain rfl := Entry.eq_concrete_of_resolve_empty hresolve
    exact ⟨_, .inl rfl, rfl⟩
  · exact ⟨pc.toNat, .inr hstray, Entry.resolvedAt_of_resolve hresolve⟩

/-- A program whose first pass fails at a label that is declared again, with a branch behind it. -/
def repeatedLabel : Program :=
  [.entry (.concrete (.u .lui 5 0x04000)), .label "a", .label "a",
   .entry (.pending (.branch (.branch .beq) 1 2 "a"))]

/-- Its branch lies at `0x104`, which is also the address of the label. After two first passes it is
resolved at `0x100`, and so reaches over four bytes and not over none. -/
theorem second_pass_of_repeatedLabel :
    new repeatedLabel 0x100#32 = .ok (fresh repeatedLabel 0x100#32) ∧
    ((fresh repeatedLabel 0x100#32).after [.pass1, .pass1]).pass2 =
      .ok [.u .lui 5 0x04000, .b 0b000 1 2 2] ∧
    ∃ e, repeatedLabel.entries[1]? = some e ∧
      ∃ address, (address = 0x104 ∨ Stray repeatedLabel 0x100#32 [.pass1, .pass1] 1 address) ∧
        e.ResolvedAt ((fresh repeatedLabel 0x100#32).after [.pass1, .pass1]).labels address
          (.b 0b000 1 2 2) := by
  have hnew : new repeatedLabel 0x100#32 = .ok (fresh repeatedLabel 0x100#32) := rfl
  have hpass2 : ((fresh repeatedLabel 0x100#32).after [.pass1, .pass1]).pass2 =
      .ok [.u .lui 5 0x04000, .b 0b000 1 2 2] := by decide +kernel
  exact ⟨hnew, hpass2, second_pass_addresses hnew hpass2 1 _ rfl⟩

/-- Not in every state of an assembler does the second pass resolve each entry at its own
address. -/
theorem second_pass_leaves_own_address :
    ¬ ∀ (p : Program) (origin : Word) (a : Assembler) (calls : List Call)
        (insts : List Instruction), new p origin = .ok a → (a.after calls).pass2 = .ok insts →
      ∀ (i : Nat) (inst : Instruction), insts[i]? = some inst → ∃ e, p.entries[i]? = some e ∧
        e.ResolvedAt (a.after calls).labels (origin.toNat + 4 * i) inst := by
  intro h
  have hpass2 : ((fresh repeatedLabel 0x100#32).after [.pass1, .pass1]).pass2 =
      .ok [.u .lui 5 0x04000, .b 0b000 1 2 2] := by decide +kernel
  obtain ⟨e, he, hresolved⟩ := h repeatedLabel 0x100#32 _ _ _ rfl hpass2 1 _ rfl
  cases he
  obtain ⟨pc, hpc, hresolve⟩ := hresolved
  have hown : pc = 0x104#32 := BitVec.eq_of_toNat_eq hpc
  rw [hown] at hresolve
  revert hresolve
  decide +kernel

end Assembler

end Rv32Asm

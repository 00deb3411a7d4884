import Mathlib
import Rv32Asm.Json.Form
import Rv32Asm.Proofs.Field

/-!
# Members of an object by name

The members of an object are put one by one into slots with their names. Any two of them can be put
in in either order (`fillSlot_comm`), so the order of the members plays no part in what the slots
hold in the end or in whether every member finds an empty slot. All do exactly if every name is
expected and none is repeated, and then a slot holds what a look-up in the list of members finds
(`membersOf?_eq_some_iff`).
-/

namespace Rv32Asm.Json

variable {expected : List String} {slots fields : String → Option Value} {m m' : String × Value}
  {members : List (String × Value)}

/-! ### One member -/

theorem fillSlot_eq_some_iff :
    fillSlot expected slots m = some fields ↔
      (m.1 ∈ expected ∧ slots m.1 = none) ∧
        (fun name => if name = m.1 then some m.2 else slots name) = fields := by
  rw [fillSlot, Option.ite_none_right_eq_some, Option.some.injEq, Option.isNone_iff_eq_none]

/-- A second member of the same name finds the slot full. -/
theorem fillSlot_fillSlot_of_eq (h : m.1 = m'.1) :
    (fillSlot expected slots m).bind (fillSlot expected · m') = none := by
  rw [Option.bind_eq_none_iff]
  intro filled hfilled
  obtain ⟨-, rfl⟩ := fillSlot_eq_some_iff.mp hfilled
  apply if_neg
  simp [h]

theorem fillSlot_fillSlot_of_ne (h : m.1 ≠ m'.1) :
    (fillSlot expected slots m).bind (fillSlot expected · m') = some fields ↔
      (m.1 ∈ expected ∧ slots m.1 = none) ∧ (m'.1 ∈ expected ∧ slots m'.1 = none) ∧
        (fun name => if name = m'.1 then some m'.2 else
          if name = m.1 then some m.2 else slots name) = fields := by
  rw [Option.bind_eq_some_iff]
  constructor
  · intro hboth
    obtain ⟨filled, hfilled, hfields⟩ := hboth
    obtain ⟨hm, rfl⟩ := fillSlot_eq_some_iff.mp hfilled
    obtain ⟨hm', hfields⟩ := fillSlot_eq_some_iff.mp hfields
    rw [if_neg (Ne.symm h)] at hm'
    exact ⟨hm, hm', hfields⟩
  · intro hboth
    obtain ⟨hm, hm', hfields⟩ := hboth
    refine ⟨_, fillSlot_eq_some_iff.mpr ⟨hm, rfl⟩, fillSlot_eq_some_iff.mpr ⟨?_, hfields⟩⟩
    rwa [if_neg (Ne.symm h)]

/-- Two members can be put in in either order. -/
theorem fillSlot_comm (expected : List String) (slots : String → Option Value)
    (m m' : String × Value) :
    (fillSlot expected slots m).bind (fillSlot expected · m') =
      (fillSlot expected slots m').bind (fillSlot expected · m) := by
  by_cases h : m.1 = m'.1
  · rw [fillSlot_fillSlot_of_eq h, fillSlot_fillSlot_of_eq h.symm]
  · apply Option.ext
    intro fields
    have hslots : (fun name => if name = m'.1 then some m'.2 else
          if name = m.1 then some m.2 else slots name) =
        fun name => if name = m.1 then some m.2 else
          if name = m'.1 then some m'.2 else slots name := by
      funext name
      by_cases hname : name = m.1
      · rw [if_pos hname, if_pos hname, if_neg (hname ▸ h)]
      · rw [if_neg hname, if_neg hname]
    rw [fillSlot_fillSlot_of_ne h, fillSlot_fillSlot_of_ne (Ne.symm h), hslots, and_left_comm]

/-! ### All members -/

theorem foldlM_fillSlot_of_perm {members' : List (String × Value)} (h : members.Perm members')
    (slots : String → Option Value) :
    members'.foldlM (fillSlot expected) slots = members.foldlM (fillSlot expected) slots := by
  induction h generalizing slots with
  | nil => rfl
  | cons m _ ih =>
    rw [List.foldlM_cons, List.foldlM_cons]
    exact congrArg (Option.bind (fillSlot expected slots m)) (funext ih)
  | swap m m' members =>
    simp only [List.foldlM_cons, Option.bind_eq_bind, ← Option.bind_assoc,
      fillSlot_comm expected slots m m']
  | trans _ _ ih ih' => rw [ih', ih]

/-- After a member is put in, the slots of further members are empty if they were before and none of
these has its name. -/
theorem forall_slot_eq_none_iff :
    (∀ m' ∈ members, m'.1 ∈ expected ∧ (if m'.1 = m.1 then some m.2 else slots m'.1) = none) ↔
      (∀ m' ∈ members, m'.1 ∈ expected ∧ slots m'.1 = none) ∧ m.1 ∉ members.map (·.1) := by
  constructor
  · intro h
    have hother : ∀ m' ∈ members, m'.1 ≠ m.1 := by
      intro m' hm' heq
      have hnone := (h m' hm').2
      rw [if_pos heq] at hnone
      cases hnone
    refine ⟨?_, ?_⟩
    · intro m' hm'
      have hslot := h m' hm'
      rwa [if_neg (hother m' hm')] at hslot
    · intro hmem
      obtain ⟨m', hm', heq⟩ := List.mem_map.mp hmem
      exact hother m' hm' heq
  · intro h m' hm'
    have hother : m'.1 ≠ m.1 := fun heq => h.2 (heq ▸ List.mem_map_of_mem hm')
    rw [if_neg hother]
    exact h.1 m' hm'

/-- What the members leave in the slots, if each of them has an expected name whose slot is empty
and no two have the same. -/
theorem foldlM_fillSlot_eq_some_iff :
    members.foldlM (fillSlot expected) slots = some fields ↔
      ((∀ m ∈ members, m.1 ∈ expected ∧ slots m.1 = none) ∧ (members.map (·.1)).Nodup) ∧
        (fun name => (slots name).or (members.lookup name)) = fields := by
  induction members generalizing slots with
  | nil => simp
  | cons m members ih =>
    have hslots : slots m.1 = none →
        (fun name => (if name = m.1 then some m.2 else slots name).or (members.lookup name)) =
          fun name => (slots name).or ((m :: members).lookup name) := by
      intro hempty
      funext name
      by_cases hname : name = m.1
      · rw [if_pos hname, hname, hempty]
        exact List.lookup_cons_self.symm
      · have hbeq : (name == m.1) = false := by simpa using hname
        rw [if_neg hname, List.lookup_cons, hbeq]
    rw [List.foldlM_cons, Option.bind_eq_bind, Option.bind_eq_some_iff, List.forall_mem_cons,
      List.map_cons, List.nodup_cons]
    constructor
    · intro h
      obtain ⟨filled, hfilled, hrest⟩ := h
      obtain ⟨hm, rfl⟩ := fillSlot_eq_some_iff.mp hfilled
      obtain ⟨⟨hempty, hnodup⟩, hfields⟩ := ih.mp hrest
      obtain ⟨hmembers, hfresh⟩ := forall_slot_eq_none_iff.mp hempty
      exact ⟨⟨⟨hm, hmembers⟩, hfresh, hnodup⟩, hslots hm.2 ▸ hfields⟩
    · intro h
      obtain ⟨⟨⟨hm, hmembers⟩, hfresh, hnodup⟩, hfields⟩ := h
      refine ⟨_, fillSlot_eq_some_iff.mpr ⟨hm, rfl⟩, ih.mpr ⟨⟨?_, hnodup⟩, ?_⟩⟩
      · exact forall_slot_eq_none_iff.mpr ⟨hmembers, hfresh⟩
      · rw [hslots hm.2, hfields]

/-- The members by name, if all names are among the expected ones and none is repeated. -/
theorem membersOf?_eq_some_iff :
    membersOf? expected members = some fields ↔
      ((∀ m ∈ members, m.1 ∈ expected) ∧ (members.map (·.1)).Nodup) ∧
        (fun name => members.lookup name) = fields := by
  rw [membersOf?, foldlM_fillSlot_eq_some_iff]
  simp

theorem membersOf?_eq_none
    (h : ¬ ((∀ m ∈ members, m.1 ∈ expected) ∧ (members.map (·.1)).Nodup)) :
    membersOf? expected members = none := by
  rw [Option.eq_none_iff_forall_ne_some]
  intro fields hfields
  exact h (membersOf?_eq_some_iff.mp hfields).1

/-- The members by name do not depend on the order in which they stand. -/
theorem membersOf?_of_perm {members' : List (String × Value)} (h : members.Perm members') :
    membersOf? expected members' = membersOf? expected members :=
  foldlM_fillSlot_of_perm h _

/-- An object with a member of another name is not taken for the record. -/
theorem membersOf?_of_not_mem (hm : m ∈ members) (h : m.1 ∉ expected) :
    membersOf? expected members = none := by
  apply membersOf?_eq_none
  intro hall
  exact h (hall.1 m hm)

/-- An expected member that is not there can be put in. -/
theorem membersOf?_cons {name : String} (hexpected : name ∈ expected)
    (hfresh : name ∉ members.map (·.1)) (v : Value) :
    membersOf? expected ((name, v) :: members) =
      (membersOf? expected members).map fun fields other =>
        if other = name then some v else fields other := by
  have hiff : ((∀ m ∈ (name, v) :: members, m.1 ∈ expected) ∧
      (((name, v) :: members).map (·.1)).Nodup) ↔
        (∀ m ∈ members, m.1 ∈ expected) ∧ (members.map (·.1)).Nodup := by
    rw [List.forall_mem_cons, List.map_cons, List.nodup_cons]
    simp [hexpected, hfresh]
  by_cases hok : (∀ m ∈ members, m.1 ∈ expected) ∧ (members.map (·.1)).Nodup
  · rw [membersOf?_eq_some_iff.mpr ⟨hok, rfl⟩, Option.map_some]
    refine membersOf?_eq_some_iff.mpr ⟨hiff.mpr hok, ?_⟩
    funext other
    by_cases hother : other = name
    · rw [hother, List.lookup_cons_self, if_pos rfl]
    · have hbeq : (other == name) = false := by simpa using hother
      rw [List.lookup_cons, hbeq, if_neg hother]
  · rw [membersOf?_eq_none hok, membersOf?_eq_none (mt hiff.mp hok), Option.map_none]

end Rv32Asm.Json

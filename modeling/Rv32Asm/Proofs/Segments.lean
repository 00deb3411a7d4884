import Mathlib
import Rv32Asm.Proofs.ImageRead

/-!
# Segment records

A reader of an absolute image keeps the upper half of the addresses, which a record of its own sets
whenever it changes. So the reader finds every instruction at its own address (`placements`), also
where the addresses wrap, and no list of records that says the same sets the upper half less often
(`segmentCount_placing_le`).
-/

namespace Rv32Asm

/-- The address of the instruction at a position, which wraps past the end of the address space. -/
def Assembly.addressOf (a : Assembly) (i : Nat) : Nat := (a.origin.toNat + 4 * i) % 2 ^ 32

/-- The upper half of the address that is in force before the instruction at a position: zero at
first, and then that of the instruction before. -/
def Assembly.upperBefore (a : Assembly) : Nat → Nat
  | 0 => 0
  | i + 1 => a.addressOf i / 2 ^ 16

theorem Assembly.toNat_placed (a : Assembly) (i : Nat) :
    (a.origin + BitVec.ofNat 32 (4 * i)).toNat = a.addressOf i := by
  unfold addressOf
  rw [BitVec.toNat_add, BitVec.toNat_ofNat, Nat.add_mod_mod]

namespace Hex

/-! ### Reading addresses -/

/-- What a reader makes of the data records up to the end of the file, while `upper` is in force:
the full address of each, and its payload. -/
def placements (upper : Nat) : List Record → List (Nat × List Byte)
  | [] => []
  | r :: rs =>
    match r.kind with
    | .data => (upper * 2 ^ 16 + r.address.toNat, r.payload) :: placements upper rs
    | .extendedLinearAddress => placements (bigEndian r.payload) rs
    | .endOfFile => []

@[simp] theorem placements_data_cons (upper : Nat) (address : BitVec 16) (w : Word)
    (rs : List Record) :
    placements upper (.data address w :: rs) =
      (upper * 2 ^ 16 + address.toNat, wordBytes w) :: placements upper rs := rfl

@[simp] theorem placements_extendedLinearAddress_cons (upper : Nat) (half : BitVec 16)
    (rs : List Record) :
    placements upper (.extendedLinearAddress half :: rs) = placements half.toNat rs := by
  rw [← bigEndian_halfBytes half]
  rfl

/-- The reader finds every instruction where it is placed. -/
theorem placements_placing (upper : BitVec 16) (placed : List (Word × Instruction)) :
    placements upper.toNat (placing upper placed ++ [.endOfFile]) =
      placed.map fun p => (p.1.toNat, wordBytes p.2.encode) := by
  induction placed generalizing upper with
  | nil => rfl
  | cons p placed ih =>
    obtain ⟨address, inst⟩ := p
    -- with or without a record for it, the upper half in force is that of the address
    have hsegment : placements upper.toNat (placing upper ((address, inst) :: placed) ++
        [.endOfFile]) = placements (address.extractLsb' 16 16).toNat
          (.data (address.extractLsb' 0 16) inst.encode ::
            (placing (address.extractLsb' 16 16) placed ++ [.endOfFile])) := by
      rw [placing]
      by_cases hupper : address.extractLsb' 16 16 = upper
      · rw [if_pos hupper, hupper]
        rfl
      · rw [if_neg hupper, List.singleton_append, List.cons_append,
          placements_extendedLinearAddress_cons]
        rfl
    rw [hsegment, placements_data_cons, ih, toNat_halves, List.map_cons]

/-! ### Counting segment records -/

/-- How many records set the upper half. -/
def segmentCount (rs : List Record) : Nat :=
  rs.countP fun r => decide (r.kind = .extendedLinearAddress)

/-- How often a value changes along a list, from `upper` on. -/
def changes (upper : Nat) : List Nat → Nat
  | [] => 0
  | u :: us => (if u = upper then 0 else 1) + changes u us

theorem changes_le_succ (u v : Nat) (us : List Nat) : changes u us ≤ changes v us + 1 := by
  cases us with
  | nil => simp [changes]
  | cons w us =>
    unfold changes
    split <;> split <;> omega

/-- A list of records sets the upper half at least as often as it changes. -/
theorem changes_placements_le (upper : Nat) (rs : List Record) :
    changes upper ((placements upper rs).map fun p => p.1 / 2 ^ 16) ≤ segmentCount rs := by
  induction rs generalizing upper with
  | nil => simp [placements, changes]
  | cons r rs ih =>
    unfold placements segmentCount
    unfold segmentCount at ih
    rw [List.countP_cons]
    cases hkind : r.kind with
    | data =>
      have hsame : (upper * 2 ^ 16 + r.address.toNat) / 2 ^ 16 = upper := by omega
      have hrest := ih upper
      simp only [List.map_cons, changes, hsame]
      simpa using hrest
    | extendedLinearAddress =>
      have hrest := ih (bigEndian r.payload)
      have hstep := changes_le_succ upper (bigEndian r.payload)
        ((placements (bigEndian r.payload) rs).map fun p => p.1 / 2 ^ 16)
      simp only [decide_true, if_true]
      omega
    | endOfFile => simp [changes]

theorem segmentCount_placing (upper : BitVec 16) (placed : List (Word × Instruction)) :
    segmentCount (placing upper placed ++ [.endOfFile]) =
      changes upper.toNat (placed.map fun p => p.1.toNat / 2 ^ 16) := by
  induction placed generalizing upper with
  | nil => rfl
  | cons p placed ih =>
    obtain ⟨address, inst⟩ := p
    have hchanged : address.toNat / 2 ^ 16 = upper.toNat ↔ address.extractLsb' 16 16 = upper := by
      rw [← toNat_upper_half, BitVec.toNat_inj]
    have hrest := ih (address.extractLsb' 16 16)
    rw [toNat_upper_half] at hrest
    rw [placing, List.map_cons, changes, ← hrest]
    unfold segmentCount
    by_cases hupper : address.extractLsb' 16 16 = upper
    · rw [if_pos hupper, if_pos (hchanged.mpr hupper), List.nil_append, List.cons_append,
        List.countP_cons_of_neg (by simp [Record.data]), Nat.zero_add]
    · rw [if_neg hupper, if_neg (mt hchanged.mp hupper), List.singleton_append, List.cons_append,
        List.cons_append, List.countP_cons_of_pos (by simp [Record.extendedLinearAddress]),
        List.countP_cons_of_neg (by simp [Record.data]), Nat.add_comm]

/-- No list of records that a reader takes for the same sets the upper half less often. -/
theorem segmentCount_placing_le {placed : List (Word × Instruction)} {rs : List Record}
    (h : placements 0 rs = placements 0 (placing 0 placed ++ [.endOfFile])) :
    segmentCount (placing 0 placed ++ [.endOfFile]) ≤ segmentCount rs := by
  have hplaced := placements_placing 0 placed
  have hle := changes_placements_le 0 rs
  rw [h] at hle
  change placements 0 _ = _ at hplaced
  rw [hplaced, List.map_map] at hle
  rw [segmentCount_placing]
  exact hle

/-! ### Groups -/

/-- The records of one instruction while `upper` is in force. -/
def group (upper : BitVec 16) (p : Word × Instruction) : List Record :=
  if p.1.extractLsb' 16 16 = upper then [.data (p.1.extractLsb' 0 16) p.2.encode]
  else [.extendedLinearAddress (p.1.extractLsb' 16 16), .data (p.1.extractLsb' 0 16) p.2.encode]

/-- The records of each instruction; before the first, `upper` is in force. -/
def groups (upper : BitVec 16) (placed : List (Word × Instruction)) : List (List Record) :=
  List.zipWith group (upper :: placed.map fun p => p.1.extractLsb' 16 16) placed

theorem length_groups (upper : BitVec 16) (placed : List (Word × Instruction)) :
    (groups upper placed).length = placed.length := by
  simp [groups]

theorem flatten_groups (upper : BitVec 16) (placed : List (Word × Instruction)) :
    (groups upper placed).flatten = placing upper placed := by
  induction placed generalizing upper with
  | nil => rfl
  | cons p placed ih =>
    have hrest := ih (p.1.extractLsb' 16 16)
    unfold groups at hrest ⊢
    rw [List.map_cons, List.zipWith_cons_cons, List.flatten_cons, hrest, placing, group]
    split <;> rfl

/-- The upper half in force before an instruction. -/
theorem exists_upperBefore {a : Assembly} {i : Nat} (h : i < a.instructions.length) :
    ∃ upper : BitVec 16, upper.toNat = a.upperBefore i ∧
      ((0 : BitVec 16) :: a.placed.map fun p => p.1.extractLsb' 16 16)[i]? = some upper := by
  cases i with
  | zero => exact ⟨0, rfl, rfl⟩
  | succ i =>
    have hi : i < a.instructions.length := by omega
    refine ⟨(a.origin + BitVec.ofNat 32 (4 * i)).extractLsb' 16 16, ?_, ?_⟩
    · rw [toNat_upper_half, Assembly.toNat_placed]
      rfl
    · rw [List.getElem?_cons_succ, List.getElem?_map, Assembly.getElem?_placed,
        List.getElem?_eq_getElem hi]
      rfl

theorem getElem?_groups {a : Assembly} {i : Nat} {inst : Instruction}
    (h : a.instructions[i]? = some inst) :
    ∃ upper lower : BitVec 16, upper.toNat * 2 ^ 16 + lower.toNat = a.addressOf i ∧
      (groups 0 a.placed)[i]? = some
        (if upper.toNat = a.upperBefore i then [.data lower inst.encode]
          else [.extendedLinearAddress upper, .data lower inst.encode]) := by
  obtain ⟨before, hbefore, hget⟩ := exists_upperBefore (List.getElem?_eq_some_iff.mp h).1
  refine ⟨_, _, (toNat_halves (a.origin + BitVec.ofNat 32 (4 * i))).trans (a.toNat_placed i), ?_⟩
  unfold groups
  rw [List.getElem?_zipWith, hget, Assembly.getElem?_placed, h, ← hbefore]
  simp only [Option.map_some, group, BitVec.toNat_inj]

/-- The absolute records of any assembly are those of its instructions, one part for each, and the
end-of-file record. A reader finds every instruction at its own address, the highest byte of its
word first. A part sets the upper half of the address exactly if that is not in force, and no
records that a reader takes for the same set it less often. -/
theorem absolute_records_fewest (a : Assembly) :
    ∃ (rs : List Record) (parts : List (List Record)),
      records a .absolute = .ok rs ∧ rs = parts.flatten ++ [.endOfFile] ∧
      parts.length = a.instructions.length ∧
      (placements 0 rs).length = a.instructions.length ∧
      (∀ (i : Nat) (inst : Instruction), a.instructions[i]? = some inst →
        (∃ payload, (placements 0 rs)[i]? = some (a.addressOf i, payload) ∧
          payload.length = 4 ∧ bigEndian payload = inst.encode.toNat) ∧
        ∃ upper lower : BitVec 16, upper.toNat * 2 ^ 16 + lower.toNat = a.addressOf i ∧
          parts[i]? = some
            (if upper.toNat = a.upperBefore i then [.data lower inst.encode]
              else [.extendedLinearAddress upper, .data lower inst.encode])) ∧
      ∀ rs', placements 0 rs' = placements 0 rs → segmentCount rs ≤ segmentCount rs' := by
  have hlength : a.placed.length = a.instructions.length := by simp [Assembly.placed]
  have hread : placements 0 (placing 0 a.placed ++ [.endOfFile]) =
      a.placed.map fun p => (p.1.toNat, wordBytes p.2.encode) := placements_placing 0 a.placed
  refine ⟨placing 0 a.placed ++ [.endOfFile], groups 0 a.placed, records_absolute a, ?_, ?_, ?_,
    ?_, ?_⟩
  · rw [flatten_groups]
  · rw [length_groups, hlength]
  · rw [hread, List.length_map, hlength]
  · intro i inst hi
    refine ⟨⟨wordBytes inst.encode, ?_, rfl, bigEndian_wordBytes _⟩, getElem?_groups hi⟩
    rw [hread, List.getElem?_map, Assembly.getElem?_placed, hi, ← Assembly.toNat_placed]
    rfl
  · intro rs' h
    exact segmentCount_placing_le h

end Hex

end Rv32Asm

import Mathlib
import Rv32Asm.Proofs.ImageRead

/-!
# Records numbered by position

An image whose data records are numbered by position has room for the positions that fit in 16
bits. A program that is longer has no such image, and the error names the first position that does
not fit, however many follow it.
-/

namespace Rv32Asm.Hex

/-- The data records of instructions that are numbered by position. -/
def numbering (insts : List Instruction) : List Record :=
  insts.zipIdx.map fun p => .data (BitVec.ofNat 16 p.2) p.1.encode

theorem length_numbering (insts : List Instruction) :
    (numbering insts).length = insts.length := by
  simp [numbering]

theorem getElem?_numbering {insts : List Instruction} {i : Nat} {inst : Instruction}
    (h : insts[i]? = some inst) :
    (numbering insts)[i]? = some (.data (BitVec.ofNat 16 i) inst.encode) := by
  simp [numbering, h]

/-- Up to the limit, the record at a position holds that position and the instruction's word. -/
theorem exists_getElem?_numbering {insts : List Instruction} (hshort : insts.length ≤ 2 ^ 16)
    {i : Nat} {inst : Instruction} (h : insts[i]? = some inst) :
    ∃ r, (numbering insts)[i]? = some r ∧ r.kind = .data ∧ r.address.toNat = i ∧
      r.payload.length = 4 ∧ bigEndian r.payload = inst.encode.toNat := by
  have hlt := (List.getElem?_eq_some_iff.mp h).1
  have haddress : (BitVec.ofNat 16 i).toNat = i := by
    rw [BitVec.toNat_ofNat, Nat.mod_eq_of_lt (by omega)]
  exact ⟨_, getElem?_numbering h, rfl, haddress, rfl, bigEndian_wordBytes inst.encode⟩

theorem ordinalRecord_of_le {inst : Instruction} {index : Nat} (h : 2 ^ 16 ≤ index) :
    ordinalRecord inst index = .error ⟨index⟩ := by
  unfold ordinalRecord
  exact if_neg (Nat.not_lt.mpr h)

theorem dataRecords_ordinal_of_le {a : Assembly} (h : a.instructions.length ≤ 2 ^ 16) :
    dataRecords a .ordinal = .ok (numbering a.instructions) := by
  unfold dataRecords numbering
  rw [mapM_eq_ok_iff, List.forall₂_map_right_iff, List.forall₂_same]
  rintro ⟨inst, i⟩ hmem
  obtain ⟨-, hi, -⟩ := List.mem_zipIdx hmem
  exact ordinalRecord_eq_ok_iff.mpr ⟨by omega, rfl⟩

/-- The positions below the limit are numbered, so the limit itself is the one that is reported. -/
theorem dataRecords_ordinal_of_lt {a : Assembly} (h : 2 ^ 16 < a.instructions.length) :
    dataRecords a .ordinal = .error ⟨2 ^ 16⟩ := by
  have hget : ∀ i : Nat,
      a.instructions.zipIdx[i]? = a.instructions[i]?.map fun inst => (inst, i) := by
    intro i
    rw [List.getElem?_zipIdx, Nat.zero_add]
  unfold dataRecords
  rw [mapM_eq_error_iff]
  refine ⟨2 ^ 16, (a.instructions[2 ^ 16], 2 ^ 16), ?_, ordinalRecord_of_le (Nat.le_refl _), ?_⟩
  · rw [hget, List.getElem?_eq_getElem h, Option.map_some]
  · intro k hk p hp
    rw [hget] at hp
    obtain ⟨inst, -, rfl⟩ := Option.map_eq_some_iff.mp hp
    exact ⟨_, ordinalRecord_eq_ok_iff.mpr ⟨hk, rfl⟩⟩

theorem records_ordinal_of_le {a : Assembly} (h : a.instructions.length ≤ 2 ^ 16) :
    records a .ordinal = .ok (numbering a.instructions ++ [.endOfFile]) := by
  unfold records
  rw [dataRecords_ordinal_of_le h]
  rfl

theorem records_ordinal_of_lt {a : Assembly} (h : 2 ^ 16 < a.instructions.length) :
    records a .ordinal = .error ⟨2 ^ 16⟩ := by
  unfold records
  rw [dataRecords_ordinal_of_lt h]
  rfl

theorem image_eq_error_iff {a : Assembly} {addressing : Addressing} {e : PositionOverflow} :
    image a addressing = .error e ↔ records a addressing = .error e := by
  unfold image lines
  rw [map_eq_error, map_eq_error]

/-- Up to 2 ^ 16 instructions of any assembly can be numbered by position. The records are then one
data record for each instruction, with its position for an address and the highest byte of its word
first, and the end-of-file record. A longer assembly has neither records nor an image, and the error
names the first position that does not fit. The origin plays no part. -/
theorem ordinal_records_up_to_limit (a : Assembly) :
    ((∃ rs, records a .ordinal = .ok rs) ↔ a.instructions.length ≤ 2 ^ 16) ∧
    (∀ rs, records a .ordinal = .ok rs →
      rs.length = a.instructions.length + 1 ∧
      (∀ (i : Nat) (inst : Instruction), a.instructions[i]? = some inst →
        ∃ r, rs[i]? = some r ∧ r.kind = .data ∧ r.address.toNat = i ∧ r.payload.length = 4 ∧
          bigEndian r.payload = inst.encode.toNat) ∧
      rs[a.instructions.length]? = some .endOfFile) ∧
    (2 ^ 16 < a.instructions.length →
      records a .ordinal = .error ⟨2 ^ 16⟩ ∧ image a .ordinal = .error ⟨2 ^ 16⟩) ∧
    ∀ origin : Word, records ⟨origin, a.instructions⟩ .ordinal = records a .ordinal := by
  rcases Nat.lt_or_ge (2 ^ 16) a.instructions.length with hlong | hshort
  · have hrecords := records_ordinal_of_lt hlong
    have himage := image_eq_error_iff.mpr hrecords
    have hnone : ∀ rs, records a .ordinal ≠ .ok rs := by simp [hrecords]
    refine ⟨⟨?_, ?_⟩, ?_, fun _ => ⟨hrecords, himage⟩, fun _ => rfl⟩
    · rintro ⟨rs, hrs⟩
      exact absurd hrs (hnone rs)
    · intro hshort
      exact absurd hlong (Nat.not_lt.mpr hshort)
    · intro rs hrs
      exact absurd hrs (hnone rs)
  · have hrecords := records_ordinal_of_le hshort
    refine ⟨⟨fun _ => hshort, fun _ => ⟨_, hrecords⟩⟩, ?_, ?_, fun _ => rfl⟩
    · intro rs hrs
      rw [hrecords] at hrs
      cases hrs
      refine ⟨by simp [length_numbering], ?_, by simp [length_numbering]⟩
      intro i inst hi
      have hlt := (List.getElem?_eq_some_iff.mp hi).1
      rw [List.getElem?_append_left (by rwa [length_numbering])]
      exact exists_getElem?_numbering hshort hi
    · intro hlong
      exact absurd hlong (Nat.not_lt.mpr hshort)

end Rv32Asm.Hex

import Mathlib
import Rv32Asm.Hex.Image
import Rv32Asm.Proofs.RecordText

/-!
# The records and lines of an image

An absolute image holds one data record for each instruction, and in front of it a record for the
upper half of the address wherever that changes (`placing`). As a text it is one line for each
record: splitting it at the newlines gives the texts of the records back.
-/

namespace Rv32Asm.Hex

/-! ### Absolute records -/

/-- The records that place instructions at their addresses while `upper` is in force. -/
def placing (upper : BitVec 16) : List (Word × Instruction) → List Record
  | [] => []
  | (address, inst) :: rest =>
    (if address.extractLsb' 16 16 = upper then []
      else [.extendedLinearAddress (address.extractLsb' 16 16)]) ++
      .data (address.extractLsb' 0 16) inst.encode :: placing (address.extractLsb' 16 16) rest

theorem toList_records_emit (e : Emitter) (address : Word) (inst : Instruction) :
    (e.emit address inst).records.toList =
      e.records.toList ++ placing e.upper [(address, inst)] := by
  unfold Emitter.emit
  by_cases h : address.extractLsb' 16 16 = e.upper
  · simp [placing, h]
  · simp [placing, h]

/-- What the emitter writes depends on the upper half in force only. -/
theorem toList_records_foldl_emit (e : Emitter) (placed : List (Word × Instruction)) :
    (placed.foldl (fun (e : Emitter) p => e.emit p.1 p.2) e).records.toList =
      e.records.toList ++ placing e.upper placed := by
  induction placed generalizing e with
  | nil => simp [placing]
  | cons p placed ih =>
    have hupper : (e.emit p.1 p.2).upper = p.1.extractLsb' 16 16 := rfl
    rw [List.foldl_cons, ih, toList_records_emit, hupper, List.append_assoc]
    simp [placing]

theorem dataRecords_absolute (a : Assembly) :
    dataRecords a .absolute = .ok (placing 0 a.placed) := by
  have hdata := toList_records_foldl_emit .start a.placed
  unfold dataRecords
  rw [hdata]
  rfl

theorem records_absolute (a : Assembly) :
    records a .absolute = .ok (placing 0 a.placed ++ [.endOfFile]) := by
  unfold records
  rw [dataRecords_absolute]
  rfl

/-- What a record of an absolute image is there for. -/
theorem mem_placing {upper : BitVec 16} {placed : List (Word × Instruction)} {r : Record}
    (h : r ∈ placing upper placed) :
    (∃ half, r = .extendedLinearAddress half) ∨
      ∃ p ∈ placed, r = .data (p.1.extractLsb' 0 16) p.2.encode := by
  induction placed generalizing upper with
  | nil => simp [placing] at h
  | cons p placed ih =>
    unfold placing at h
    rcases List.mem_append.mp h with hsegment | hdata
    · left
      split at hsegment
      · cases hsegment
      · exact ⟨_, List.mem_singleton.mp hsegment⟩
    · rcases List.mem_cons.mp hdata with rfl | hrest
      · exact .inr ⟨p, List.mem_cons_self, rfl⟩
      · rcases ih hrest with hsegment | ⟨q, hq, hr⟩
        · exact .inl hsegment
        · exact .inr ⟨q, List.mem_cons_of_mem _ hq, hr⟩

/-! ### Lines -/

/-- The lines of a text; what follows the last newline is one too. -/
def splitLines (text : String) : List String := (text.toList.splitOn '\n').map String.ofList

theorem newline_not_mem_text (r : Record) : '\n' ∉ r.text.toList := by
  intro h
  have hblank := Record.isBlank_of_mem_text h
  revert hblank
  decide

/-- Lines without a newline of their own, each ended by one, are split where they end. -/
theorem splitLines_join {ls : List String} (h : ∀ l ∈ ls, '\n' ∉ l.toList) :
    splitLines (String.join (ls.map (· ++ "\n"))) = ls ++ [""] := by
  induction ls with
  | nil => rfl
  | cons l ls ih =>
    have htext : (String.join ((l :: ls).map (· ++ "\n"))).toList =
        l.toList ++ '\n' :: (String.join (ls.map (· ++ "\n"))).toList := by
      rw [List.map_cons, String.join_cons, String.toList_append, String.toList_append,
        List.append_assoc]
      rfl
    have hrest := ih fun l' hl' => h l' (List.mem_cons_of_mem l hl')
    unfold splitLines at hrest ⊢
    rw [htext, List.splitOn_append_cons_self_of_not_mem (h l List.mem_cons_self), List.map_cons,
      String.ofList_toList, hrest]
    rfl

theorem splitLines_join_text (rs : List Record) :
    splitLines (String.join (rs.map fun r => r.text ++ "\n")) = rs.map Record.text ++ [""] := by
  have hlines : ∀ l ∈ rs.map Record.text, '\n' ∉ l.toList := by
    intro l hl
    obtain ⟨r, -, rfl⟩ := List.mem_map.mp hl
    exact newline_not_mem_text r
  have hsplit := splitLines_join hlines
  rwa [List.map_map] at hsplit

theorem image_eq_ok {a : Assembly} {addressing : Addressing} {rs : List Record}
    (h : records a addressing = .ok rs) :
    image a addressing = .ok (String.join (rs.map fun r => r.text ++ "\n")) := by
  unfold image lines
  rw [h]
  rfl

/-- A file that is written is the lines of its records. -/
theorem exists_records_of_image {a : Assembly} {addressing : Addressing} {text : String}
    (h : image a addressing = .ok text) :
    ∃ rs, records a addressing = .ok rs ∧
      String.join (rs.map fun r => r.text ++ "\n") = text := by
  unfold image lines at h
  obtain ⟨ls, hlines, rfl⟩ := map_eq_ok.mp h
  obtain ⟨rs, hrecords, rfl⟩ := map_eq_ok.mp hlines
  exact ⟨rs, hrecords, rfl⟩

end Rv32Asm.Hex

import Mathlib
import Rv32Asm.Proofs.ImageLoad
import Rv32Asm.Proofs.MachineWord

/-!
# Reading an image back

Every line of an image reads back as its record, and the data records hold the instructions of the
assembly, one each and in order, whatever their addresses. So an image determines the instructions,
in either addressing.
-/

namespace Rv32Asm.Hex

/-! ### The instructions that records hold -/

/-- The machine word in a payload of four bytes, the highest byte first. -/
def Record.word? (r : Record) : Option Word :=
  if r.payload.length = 4 then some (BitVec.ofNat 32 (bigEndian r.payload)) else none

/-- The instruction that a record holds. -/
def Record.instruction? (r : Record) : Option Instruction := r.word?.bind Word.decode?

/-- What the data records hold, in order; a record that holds no instruction is not passed over. -/
def heldInstructions (rs : List Record) : List (Option Instruction) :=
  (rs.filter fun r => r.kind = .data).map Record.instruction?

theorem bigEndian_wordBytes (w : Word) : bigEndian (wordBytes w) = w.toNat := by
  simp only [bigEndian, wordBytes, List.foldl_cons, List.foldl_nil, BitVec.extractLsb'_toNat,
    Nat.shiftRight_eq_div_pow]
  omega

theorem instruction?_data (address : BitVec 16) (inst : Instruction) :
    (Record.data address inst.encode).instruction? = some inst := by
  have hlength : (Record.data address inst.encode).payload.length = 4 := rfl
  have hword : (Record.data address inst.encode).word? = some inst.encode := by
    unfold Record.word?
    rw [if_pos hlength]
    unfold Record.data
    rw [bigEndian_wordBytes, BitVec.ofNat_toNat, BitVec.setWidth_eq]
  unfold Record.instruction?
  rw [hword, Option.bind_some, Instruction.decode?_encode]

@[simp] theorem heldInstructions_append (rs rs' : List Record) :
    heldInstructions (rs ++ rs') = heldInstructions rs ++ heldInstructions rs' := by
  unfold heldInstructions
  rw [List.filter_append, List.map_append]

@[simp] theorem heldInstructions_data_cons (address : BitVec 16) (inst : Instruction)
    (rs : List Record) :
    heldInstructions (.data address inst.encode :: rs) = some inst :: heldInstructions rs := by
  unfold heldInstructions
  rw [List.filter_cons_of_pos (by rfl), List.map_cons, instruction?_data]

@[simp] theorem heldInstructions_extendedLinearAddress (half : BitVec 16) :
    heldInstructions [.extendedLinearAddress half] = [] := rfl

@[simp] theorem heldInstructions_endOfFile : heldInstructions [.endOfFile] = [] := rfl

/-! ### The records of an assembly -/

theorem ordinalRecord_eq_ok_iff {inst : Instruction} {index : Nat} {r : Record} :
    ordinalRecord inst index = .ok r ↔
      index < 0x10000 ∧ .data (BitVec.ofNat 16 index) inst.encode = r := by
  unfold ordinalRecord
  by_cases h : index < 0x10000
  · simp [h]
  · simp [h]

theorem heldInstructions_ordinal {insts : List Instruction} {k : Nat} {rs : List Record}
    (h : List.Forall₂ (fun p r => ordinalRecord p.1 p.2 = .ok r) (insts.zipIdx k) rs) :
    heldInstructions rs = insts.map some := by
  induction insts generalizing k rs with
  | nil =>
    cases h
    rfl
  | cons inst insts ih =>
    cases h with
    | cons hfirst hrest =>
      obtain ⟨-, rfl⟩ := ordinalRecord_eq_ok_iff.mp hfirst
      rw [heldInstructions_data_cons, ih hrest, List.map_cons]

theorem heldInstructions_placing (upper : BitVec 16) (placed : List (Word × Instruction)) :
    heldInstructions (placing upper placed) = placed.map fun p => some p.2 := by
  induction placed generalizing upper with
  | nil => rfl
  | cons p placed ih =>
    obtain ⟨address, inst⟩ := p
    rw [placing, heldInstructions_append, heldInstructions_data_cons, ih, List.map_cons]
    by_cases hupper : address.extractLsb' 16 16 = upper
    · rw [if_pos hupper]
      rfl
    · rw [if_neg hupper, heldInstructions_extendedLinearAddress, List.nil_append]

theorem map_snd_placed (a : Assembly) : a.placed.map Prod.snd = a.instructions := by
  unfold Assembly.placed
  rw [List.map_map]
  exact List.zipIdx_map_fst 0 a.instructions

/-- The records of an assembly hold its instructions, in either addressing. -/
theorem heldInstructions_records {a : Assembly} {addressing : Addressing} {rs : List Record}
    (h : records a addressing = .ok rs) : heldInstructions rs = a.instructions.map some := by
  obtain ⟨ds, hdata, rfl⟩ := map_eq_ok.mp h
  rw [heldInstructions_append, heldInstructions_endOfFile, List.append_nil]
  cases addressing with
  | ordinal => exact heldInstructions_ordinal (mapM_eq_ok_iff.mp hdata)
  | absolute =>
    rw [dataRecords_absolute] at hdata
    cases hdata
    rw [heldInstructions_placing]
    conv_rhs => rw [← map_snd_placed a, List.map_map]
    rfl

theorem length_payload_of_mem_records {a : Assembly} {addressing : Addressing}
    {rs : List Record} {r : Record} (h : records a addressing = .ok rs) (hr : r ∈ rs) :
    r.payload.length < 256 := by
  obtain ⟨ds, hdata, rfl⟩ := map_eq_ok.mp h
  rcases List.mem_append.mp hr with hr | hr
  · cases addressing with
    | ordinal =>
      obtain ⟨i, hi⟩ := List.mem_iff_getElem?.mp hr
      obtain ⟨p, -, hp⟩ := getElem?_of_forall₂ (mapM_eq_ok_iff.mp hdata).flip hi
      obtain ⟨-, rfl⟩ := ordinalRecord_eq_ok_iff.mp hp
      simp [Record.data, wordBytes]
    | absolute =>
      rw [dataRecords_absolute] at hdata
      cases hdata
      exact (kind_and_length_of_mem_placing hr).2
  · rw [List.mem_singleton.mp hr]
    decide

/-! ### The lines of an image -/

theorem map_parse_text {rs : List Record} (h : ∀ r ∈ rs, r.payload.length < 256) :
    (rs.map Record.text).map Record.parse = rs.map .ok := by
  rw [List.map_map]
  apply List.map_congr_left
  intro r hr
  rw [Function.comp_apply, Record.parse_text (h r hr)]

/-- The lines of an image are the texts of its records, and read back as them. -/
theorem lines_of_image {a : Assembly} {addressing : Addressing} {text : String}
    (h : image a addressing = .ok text) :
    ∃ rs, records a addressing = .ok rs ∧ splitLines text = rs.map Record.text ++ [""] ∧
      (rs.map Record.text).map Record.parse = rs.map .ok := by
  obtain ⟨rs, hrecords, rfl⟩ := exists_records_of_image h
  refine ⟨rs, hrecords, splitLines_join_text rs, ?_⟩
  apply map_parse_text
  intro r hr
  exact length_payload_of_mem_records hrecords hr

/-- An image determines the instructions of the assembly, in either addressing: its lines, all of
them ended by a newline, read back as its records, the data records hold the instructions in order
and nothing else, and no assembly of other instructions has the same image. -/
theorem image_determines_instructions {a : Assembly} {addressing : Addressing} {text : String}
    (h : image a addressing = .ok text) :
    (∃ rs lines, records a addressing = .ok rs ∧ splitLines text = lines ++ [""] ∧
      lines.map Record.parse = rs.map .ok ∧ heldInstructions rs = a.instructions.map some) ∧
    ∀ b addressing', image b addressing' = .ok text → b.instructions = a.instructions := by
  obtain ⟨rs, hrecords, hlines, hparse⟩ := lines_of_image h
  have hheld := heldInstructions_records hrecords
  refine ⟨⟨rs, rs.map Record.text, hrecords, hlines, hparse, hheld⟩, ?_⟩
  intro b addressing' hb
  obtain ⟨rs', hrecords', hlines', hparse'⟩ := lines_of_image hb
  -- the same lines read back as the same records, and these hold the same instructions
  have htexts : rs.map Record.text = rs'.map Record.text :=
    List.append_cancel_right (hlines.symm.trans hlines')
  have hsame : rs = rs' := by
    rw [← htexts, hparse] at hparse'
    exact List.map_injective_iff.mpr (fun _ _ => Except.ok.inj) hparse'
  rw [hsame, heldInstructions_records hrecords'] at hheld
  exact List.map_injective_iff.mpr (Option.some_injective _) hheld

/-- A loop of two instructions, numbered by position. -/
theorem image_of_loop :
    assemble [.label "loop", .entry (.concrete (.u .lui 5 0x04000)),
        .entry (.pending (.jump 0 "loop"))] 0x10000000#32 =
      .ok ⟨0x10000000#32, [.u .lui 5 0x04000, .j 0 (-2)]⟩ ∧
    ∃ text rs lines,
      image ⟨0x10000000#32, [.u .lui 5 0x04000, .j 0 (-2)]⟩ .ordinal = .ok text ∧
      records ⟨0x10000000#32, [.u .lui 5 0x04000, .j 0 (-2)]⟩ .ordinal = .ok rs ∧
      splitLines text = lines ++ [""] ∧ lines.map Record.parse = rs.map .ok ∧
      heldInstructions rs = [some (.u .lui 5 0x04000), some (.j 0 (-2))] := by
  have himage : image ⟨0x10000000#32, [.u .lui 5 0x04000, .j 0 (-2)]⟩ .ordinal =
      .ok _ := image_eq_ok rfl
  obtain ⟨⟨rs, lines, hrecords, hlines, hparse, hheld⟩, -⟩ := image_determines_instructions himage
  exact ⟨rfl, _, rs, lines, himage, hrecords, hlines, hparse, hheld⟩

end Rv32Asm.Hex

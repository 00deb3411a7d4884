import Mathlib
import Rv32Asm.Proofs.Assemble
import Rv32Asm.Proofs.Image

/-!
# Loading an absolute image

A loader reads a HEX file line by line and stores the payloads of the data records. On the absolute
image of an assembled program it ends with the machine words of the program in memory, each at the
address of its instruction, and with nothing else.
-/

namespace Rv32Asm.Hex

/-! ### The loader -/

/-- The number that bytes stand for, the highest of them first. -/
def bigEndian (bytes : List Byte) : Nat := bytes.foldl (fun n b => n * 256 + b.toNat) 0

theorem bigEndian_halfBytes (half : BitVec 16) : bigEndian (halfBytes half) = half.toNat := by
  simp only [bigEndian, halfBytes, List.foldl_cons, List.foldl_nil, BitVec.extractLsb'_toNat,
    Nat.shiftRight_eq_div_pow]
  omega

theorem toNat_upper_half (address : Word) :
    (address.extractLsb' 16 16).toNat = address.toNat / 2 ^ 16 := by
  rw [BitVec.extractLsb'_toNat, Nat.shiftRight_eq_div_pow]
  omega

theorem toNat_halves (address : Word) :
    (address.extractLsb' 16 16).toNat * 2 ^ 16 + (address.extractLsb' 0 16).toNat =
      address.toNat := by
  rw [toNat_upper_half, BitVec.extractLsb'_toNat, Nat.shiftRight_zero]
  omega

/-- What a loader has taken in: the upper half of the addresses in force, and the bytes stored so
far with their addresses, in order. -/
structure Loader where
  upper : Nat
  stores : List (Nat × Byte)

namespace Loader

/-- The upper half is zero, and nothing is stored. -/
def start : Loader := ⟨0, []⟩

/-- The bytes of a payload, stored from an address on. -/
def storing (address : Nat) (payload : List Byte) : List (Nat × Byte) :=
  payload.zipIdx.map fun (b, j) => (address + j, b)

/-- Takes in a record. -/
def step (l : Loader) (r : Record) : Loader :=
  match r.kind with
  | .data =>
    { l with stores := l.stores ++ storing (l.upper * 2 ^ 16 + r.address.toNat) r.payload }
  | .extendedLinearAddress => { l with upper := bigEndian r.payload }
  | .endOfFile => l

/-- Takes in lines up to the end-of-file record, and gives back the lines after it. Every line has
to be a record. -/
def load (l : Loader) : List String → Option (Loader × List String)
  | [] => none
  | line :: rest =>
    match Record.parse line with
    | .error _ => none
    | .ok r => if r.kind = .endOfFile then some (l, rest) else (l.step r).load rest

/-- The memory after the stores, of which the last to an address counts. -/
def memory (l : Loader) (address : Nat) : Option Byte := l.stores.reverse.lookup address

/-- The memory holds the machine words of an assembled program, the highest byte of each first, and
nothing else. -/
def Holds (l : Loader) (a : Assembly) : Prop :=
  ∀ address b, l.memory address = some b ↔
    ∃ (i j : Nat) (inst : Instruction), a.instructions[i]? = some inst ∧ j < 4 ∧
      address = a.origin.toNat + 4 * i + j ∧ b.toNat = inst.encode.toNat / 256 ^ (3 - j) % 256

/-! ### Records -/

theorem load_of_records {rs : List Record} (l : Loader) (rest : List String)
    (h : ∀ r ∈ rs, r.kind ≠ .endOfFile ∧ r.payload.length < 256) :
    l.load (rs.map Record.text ++ Record.endOfFile.text :: rest) =
      some (rs.foldl step l, rest) := by
  induction rs generalizing l with
  | nil =>
    have hparse : Record.parse Record.endOfFile.text = .ok .endOfFile :=
      Record.parse_text (by decide)
    rw [List.map_nil, List.nil_append, load, hparse]
    rfl
  | cons r rs ih =>
    obtain ⟨hkind, hlength⟩ := h r List.mem_cons_self
    rw [List.map_cons, List.cons_append, load, Record.parse_text hlength]
    simp only [if_neg hkind]
    exact ih (l.step r) fun r' hr' => h r' (List.mem_cons_of_mem _ hr')

theorem step_extendedLinearAddress (l : Loader) (half : BitVec 16) :
    l.step (.extendedLinearAddress half) = { l with upper := half.toNat } := by
  unfold step Record.extendedLinearAddress
  simp only [bigEndian_halfBytes]

/-- A word's data record stores the word at the full address, if the upper half of the address is
in force. -/
theorem step_data {l : Loader} {address : Word} (w : Word)
    (h : l.upper = (address.extractLsb' 16 16).toNat) :
    l.step (.data (address.extractLsb' 0 16) w) =
      { l with stores := l.stores ++ storing address.toNat (wordBytes w) } := by
  unfold step Record.data
  simp only [h, toNat_halves]

/-- Taking in the records of placed instructions stores every machine word where its instruction
stands. -/
theorem stores_foldl_step_placing {l : Loader} {upper : BitVec 16}
    (placed : List (Word × Instruction)) (h : l.upper = upper.toNat) :
    ((placing upper placed).foldl step l).stores =
      l.stores ++ placed.flatMap fun p => storing p.1.toNat (wordBytes p.2.encode) := by
  induction placed generalizing l upper with
  | nil => simp [placing]
  | cons p placed ih =>
    obtain ⟨address, inst⟩ := p
    -- after the segment record, if there is one, the upper half in force is that of the address
    have hsegment : (if address.extractLsb' 16 16 = upper then []
        else [Record.extendedLinearAddress (address.extractLsb' 16 16)]).foldl step l =
          { l with upper := (address.extractLsb' 16 16).toNat } := by
      by_cases hupper : address.extractLsb' 16 16 = upper
      · rw [if_pos hupper, hupper, ← h]
        rfl
      · rw [if_neg hupper, List.foldl_cons, List.foldl_nil, step_extendedLinearAddress]
    rw [placing, List.foldl_append, hsegment, List.foldl_cons, step_data _ rfl, ih rfl,
      List.flatMap_cons, List.append_assoc]

/-! ### Stores -/

theorem map_fst_storing (address : Nat) (payload : List Byte) :
    (storing address payload).map Prod.fst = List.range' address payload.length := by
  unfold storing
  rw [List.map_map, List.range'_eq_map_range, List.range_eq_range',
    ← List.zipIdx_map_snd 0 payload, List.map_map]
  rfl

theorem mem_storing {address target : Nat} {payload : List Byte} {b : Byte} :
    (target, b) ∈ storing address payload ↔ ∃ j, payload[j]? = some b ∧ target = address + j := by
  unfold storing
  simp only [List.mem_map, Prod.exists, List.mem_zipIdx_iff_getElem?, Prod.mk.injEq]
  constructor
  · rintro ⟨c, j, hj, rfl, rfl⟩
    exact ⟨j, hj, rfl⟩
  · rintro ⟨j, hj, rfl⟩
    exact ⟨b, j, hj, rfl, rfl⟩

theorem getElem?_wordBytes {w : Word} {j : Nat} {b : Byte} :
    (wordBytes w)[j]? = some b ↔ j < 4 ∧ b.toNat = w.toNat / 256 ^ (3 - j) % 256 := by
  have hbyte (k : Nat) : w.extractLsb' k 8 = b ↔ b.toNat = w.toNat / 2 ^ k % 256 := by
    rw [← BitVec.toNat_inj, BitVec.extractLsb'_toNat, Nat.shiftRight_eq_div_pow, eq_comm]
  unfold wordBytes
  match j with
  | 0 => simp [hbyte]
  | 1 => simp [hbyte]
  | 2 => simp [hbyte]
  | 3 => simp [hbyte]
  | j + 4 => simp

/-- The stores of the words of instructions that stand one after the other, the first of them at
position `k`. -/
def storingWords (start k : Nat) (insts : List Instruction) : List (Nat × Byte) :=
  (insts.zipIdx k).flatMap fun (inst, i) => storing (start + 4 * i) (wordBytes inst.encode)

/-- No address is left out, and none comes twice. -/
theorem map_fst_storingWords (start k : Nat) (insts : List Instruction) :
    (storingWords start k insts).map Prod.fst =
      List.range' (start + 4 * k) (4 * insts.length) := by
  induction insts generalizing k with
  | nil => rfl
  | cons inst insts ih =>
    unfold storingWords at ih ⊢
    rw [List.zipIdx_cons, List.flatMap_cons, List.map_append, map_fst_storing, ih,
      List.length_cons]
    have hnext : start + 4 * (k + 1) = start + 4 * k + 4 := by omega
    have hlength : 4 * (insts.length + 1) = 4 + 4 * insts.length := by omega
    rw [hnext, hlength, ← List.range'_append_1]
    rfl

theorem mem_storingWords {start address : Nat} {insts : List Instruction} {b : Byte} :
    (address, b) ∈ storingWords start 0 insts ↔
      ∃ (i j : Nat) (inst : Instruction), insts[i]? = some inst ∧ j < 4 ∧
        address = start + 4 * i + j ∧ b.toNat = inst.encode.toNat / 256 ^ (3 - j) % 256 := by
  unfold storingWords
  simp only [List.mem_flatMap, Prod.exists, List.mem_zipIdx_iff_getElem?, mem_storing,
    getElem?_wordBytes]
  constructor
  · rintro ⟨inst, i, hi, j, ⟨hj, hb⟩, haddress⟩
    exact ⟨i, j, inst, hi, hj, haddress, hb⟩
  · rintro ⟨i, j, inst, hi, hj, haddress, hb⟩
    exact ⟨inst, i, hi, j, ⟨hj, hb⟩, haddress⟩

/-- In an assembly that does not wrap, the word at position `i` is stored at `4 * i` from the
origin on. -/
theorem flatMap_placed {a : Assembly}
    (h : a.origin.toNat + 4 * a.instructions.length ≤ 2 ^ 32) :
    (a.placed.flatMap fun p => storing p.1.toNat (wordBytes p.2.encode)) =
      storingWords a.origin.toNat 0 a.instructions := by
  unfold Assembly.placed storingWords
  rw [List.flatMap_map]
  refine List.flatMap_congr fun p hp => ?_
  obtain ⟨inst, i⟩ := p
  have hi := (List.getElem?_eq_some_iff.mp (List.mem_zipIdx_iff_getElem?.mp hp)).1
  simp only [Assembly.toNat_address h hi]

/-- While no address is written twice, the memory is the set of stores. -/
theorem memory_eq_some_iff {l : Loader} {address : Nat} {b : Byte}
    (h : (l.stores.map Prod.fst).Nodup) :
    l.memory address = some b ↔ (address, b) ∈ l.stores := by
  have hreverse : (l.stores.reverse.map Prod.fst).Nodup := by
    rw [List.map_reverse]
    exact List.nodup_reverse.mpr h
  unfold memory
  rw [lookup_eq_some_iff_mem hreverse, List.mem_reverse]

end Loader

/-! ### Images of assembled programs -/

/-- The data record of a word at a multiple of four lies within its segment. -/
theorem within_segment_of_mem_placing {a : Assembly} {r : Record} (h : a.origin.toNat % 4 = 0)
    (hr : r ∈ placing 0 a.placed) (hkind : r.kind = .data) :
    r.address.toNat + r.payload.length ≤ 2 ^ 16 := by
  rcases mem_placing hr with ⟨half, rfl⟩ | ⟨p, hp, rfl⟩
  · cases hkind
  · obtain ⟨⟨inst, i⟩, -, rfl⟩ := List.mem_map.mp hp
    have haddress : ((a.origin + BitVec.ofNat 32 (4 * i)).extractLsb' 0 16).toNat % 4 = 0 := by
      rw [BitVec.extractLsb'_toNat, BitVec.toNat_add, BitVec.toNat_ofNat, Nat.shiftRight_zero]
      omega
    have hlength : (wordBytes inst.encode).length = 4 := rfl
    have hlt := ((a.origin + BitVec.ofNat 32 (4 * i)).extractLsb' 0 16).isLt
    change ((a.origin + BitVec.ofNat 32 (4 * i)).extractLsb' 0 16).toNat +
      (wordBytes inst.encode).length ≤ 2 ^ 16
    omega

theorem kind_and_length_of_mem_placing {upper : BitVec 16} {placed : List (Word × Instruction)}
    {r : Record} (h : r ∈ placing upper placed) :
    r.kind ≠ .endOfFile ∧ r.payload.length < 256 := by
  rcases mem_placing h with ⟨half, rfl⟩ | ⟨p, -, rfl⟩
  · refine ⟨?_, ?_⟩
    · simp [Record.extendedLinearAddress]
    · simp [Record.extendedLinearAddress, halfBytes]
  · refine ⟨?_, ?_⟩
    · simp [Record.data]
    · simp [Record.data, wordBytes]

/-- A line of an image that is a record is one of the records of the image. -/
theorem mem_of_parse_line {rs : List Record} {line : String} {r : Record}
    (h : ∀ r ∈ rs, r.payload.length < 256) (hline : line ∈ rs.map Record.text ++ [""])
    (hparse : Record.parse line = .ok r) : r ∈ rs := by
  rcases List.mem_append.mp hline with hrecord | hrest
  · obtain ⟨r', hr', rfl⟩ := List.mem_map.mp hrecord
    rw [Record.parse_text (h r' hr')] at hparse
    cases hparse
    exact hr'
  · rw [List.mem_singleton.mp hrest] at hparse
    cases hparse

/-- What a loader has taken in when it has read the absolute image of an assembly. -/
def loaded (a : Assembly) : Loader := (placing 0 a.placed).foldl Loader.step .start

theorem load_lines (a : Assembly) :
    Loader.start.load ((placing 0 a.placed ++ [Record.endOfFile]).map Record.text ++ [""]) =
      some (loaded a, [""]) := by
  rw [List.map_append, List.append_assoc]
  refine Loader.load_of_records Loader.start [""] ?_
  intro r hr
  exact kind_and_length_of_mem_placing hr

theorem stores_loaded {a : Assembly}
    (h : a.origin.toNat + 4 * a.instructions.length ≤ 2 ^ 32) :
    (loaded a).stores = Loader.storingWords a.origin.toNat 0 a.instructions := by
  unfold loaded
  rw [Loader.stores_foldl_step_placing a.placed rfl, Loader.flatMap_placed h]
  rfl

/-- The stores of an image fill the room from the origin on, address by address. -/
theorem map_fst_stores_loaded {a : Assembly}
    (h : a.origin.toNat + 4 * a.instructions.length ≤ 2 ^ 32) :
    (loaded a).stores.map Prod.fst =
      List.range' a.origin.toNat (4 * a.instructions.length) := by
  rw [stores_loaded h]
  exact Loader.map_fst_storingWords a.origin.toNat 0 a.instructions

/-- The absolute image of an assembled program loads to exactly the machine words of the program:
the loader reads every line up to the end-of-file record, with which the image ends, no byte is
stored twice, and no data record reaches past its segment of 64 KiB or past the last address. -/
theorem load_image_absolute {p : Program} {origin : Word} {a : Assembly}
    (h : assemble p origin = .ok a) :
    ∃ text l, image a .absolute = .ok text ∧
      Loader.start.load (splitLines text) = some (l, [""]) ∧
      a.origin = origin ∧ l.Holds a ∧
      (l.stores.map Prod.fst).Nodup ∧
      (∀ line ∈ splitLines text, ∀ r, Record.parse line = .ok r → r.kind = .data →
        r.address.toNat + r.payload.length ≤ 2 ^ 16) ∧
      ∀ s ∈ l.stores, s.1 < 2 ^ 32 := by
  obtain ⟨horigin, haligned, hwithin⟩ := assemble_within h
  have hlines := splitLines_join_text (placing 0 a.placed ++ [.endOfFile])
  have haddresses := map_fst_stores_loaded hwithin
  have hnodup : ((loaded a).stores.map Prod.fst).Nodup := by
    rw [haddresses]
    exact List.nodup_range'
  refine ⟨_, loaded a, image_eq_ok (records_absolute a), ?_, horigin, ?_, hnodup, ?_, ?_⟩
  · rw [hlines]
    exact load_lines a
  · intro address b
    rw [Loader.memory_eq_some_iff hnodup, stores_loaded hwithin, Loader.mem_storingWords]
  · rw [hlines]
    intro line hline r hparse hkind
    have hlength : ∀ r ∈ placing 0 a.placed ++ [.endOfFile], r.payload.length < 256 := by
      intro r hr
      rcases List.mem_append.mp hr with hr | hr
      · exact (kind_and_length_of_mem_placing hr).2
      · rw [List.mem_singleton.mp hr]
        decide
    rcases List.mem_append.mp (mem_of_parse_line hlength hline hparse) with hr | hr
    · exact within_segment_of_mem_placing haligned hr hkind
    · rw [List.mem_singleton.mp hr] at hkind
      cases hkind
  · intro s hs
    have hmem : s.1 ∈ (loaded a).stores.map Prod.fst := List.mem_map.mpr ⟨s, hs, rfl⟩
    rw [haddresses, List.mem_range'_1] at hmem
    omega

/-- A loop across the end of the first segment: its jump back loads into the second. -/
theorem load_image_across_segments :
    assemble [.label "loop", .entry (.concrete (.u .lui 5 0x04000)),
        .entry (.pending (.jump 0 "loop"))] 0xfffc#32 =
      .ok ⟨0xfffc#32, [.u .lui 5 0x04000, .j 0 (-2)]⟩ ∧
    ∃ text l, image ⟨0xfffc#32, [.u .lui 5 0x04000, .j 0 (-2)]⟩ .absolute = .ok text ∧
      Loader.start.load (splitLines text) = some (l, [""]) ∧
      l.memory 0xfffc = some 0x04 ∧ l.memory 0x10000 = some 0xff ∧ l.memory 0x10004 = none := by
  have h : assemble [.label "loop", .entry (.concrete (.u .lui 5 0x04000)),
      .entry (.pending (.jump 0 "loop"))] 0xfffc#32 =
      .ok ⟨0xfffc#32, [.u .lui 5 0x04000, .j 0 (-2)]⟩ := by rfl
  obtain ⟨text, l, himage, hload, -, hholds, -⟩ := load_image_absolute h
  refine ⟨h, text, l, himage, hload, ?_, ?_, ?_⟩
  · exact (hholds _ _).mpr ⟨0, 0, _, rfl, by decide, rfl, by decide⟩
  · exact (hholds _ _).mpr ⟨1, 0, _, rfl, by decide, rfl, by decide⟩
  · rw [Option.eq_none_iff_forall_ne_some]
    intro b hb
    obtain ⟨i, j, inst, hi, hj, haddress, -⟩ := (hholds _ _).mp hb
    have hlt : i < 2 := (List.getElem?_eq_some_iff.mp hi).1
    replace haddress : 0x10004 = 0xfffc + 4 * i + j := haddress
    omega

end Rv32Asm.Hex

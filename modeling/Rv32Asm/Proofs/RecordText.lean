import Mathlib
import Rv32Asm.Hex.Record
import Rv32Asm.Proofs.Numeral

/-!
# Records as text

Reading takes two characters for each byte. They stand for the byte that is written with the same
digits in capitals, and a plus sign passes for a zero in front (`Record.readBytes?_eq_some_iff`).
What is checked of the bytes is their number first, then the checksum, then the kind
(`Record.parse_of_readBytes?`), so the text of a record whose payload fits its length byte reads
back as the record (`Record.parse_text`). The text is free of white space and stays one line of a
file.
-/

namespace Rv32Asm.Hex

theorem RecordKind.ofCode?_code (kind : RecordKind) : ofCode? kind.code = some kind := by
  cases kind <;> decide

namespace Record

/-! ### Bytes -/

theorem byteDigits_eq (b : Byte) :
    byteDigits b = [(b.toNat / 16).digitChar.toUpper, (b.toNat % 16).digitChar.toUpper] := by
  have hlt : b.toNat / 16 < 16 := by omega
  unfold byteDigits
  simp only [Text.fixedDigits, Nat.mod_eq_of_lt hlt, List.nil_append, List.cons_append,
    List.map_cons, List.map_nil]

/-- Every written digit is the capital form of a digit. -/
theorem exists_of_mem_byteDigits {bs : List Byte} {c : Char} (h : c ∈ bs.flatMap byteDigits) :
    ∃ d < 16, c = d.digitChar.toUpper := by
  obtain ⟨b, -, hc⟩ := List.mem_flatMap.mp h
  rw [byteDigits_eq] at hc
  rcases List.mem_pair.mp hc with rfl | rfl
  · exact ⟨_, by omega, rfl⟩
  · exact ⟨_, by omega, rfl⟩

/-- A pair of characters is read as the byte that is written with the same digits. -/
theorem readNumeral_eq_ok_iff_byteDigits {a b : Char} {n : Nat} :
    Text.readNumeral 16 0x100 [a, b] = .ok n ↔
      ∃ byte : Byte, byte.toNat = n ∧ [Text.capitalDigit a, b.toUpper] = byteDigits byte := by
  rw [Text.readNumeral_pair_eq_ok_iff]
  constructor
  · rintro ⟨hi, lo, hhi, hlo, hn⟩
    obtain ⟨hlt, hlower⟩ := Text.hexDigitValue?_eq_some_iff.mp hlo
    have hlt' : hi < 16 := by
      rcases hhi with hhi | ⟨-, rfl⟩
      · exact (Text.hexDigitValue?_eq_some_iff.mp hhi).1
      · decide
    have hbyte : (BitVec.ofNat 8 n).toNat = n := by
      rw [BitVec.toNat_ofNat, Nat.mod_eq_of_lt (by omega)]
    have hhigh : n / 16 = hi := by omega
    have hlow : n % 16 = lo := by omega
    refine ⟨BitVec.ofNat 8 n, hbyte, ?_⟩
    rw [byteDigits_eq, hbyte, hhigh, hlow, (Text.capitalDigit_eq_iff hlt').mpr hhi, hlower]
  · rintro ⟨byte, rfl, hpair⟩
    have hhigh : byte.toNat / 16 < 16 := by omega
    have hlow : byte.toNat % 16 < 16 := by omega
    rw [byteDigits_eq, List.cons.injEq, List.cons.injEq] at hpair
    obtain ⟨hhi, hlo, -⟩ := hpair
    exact ⟨_, _, (Text.capitalDigit_eq_iff hhigh).mp hhi,
      Text.hexDigitValue?_eq_some_iff.mpr ⟨hlow, hlo⟩, by omega⟩

theorem readBytes?_cons_cons_eq_some_iff {a b : Char} {cs : List Char} {bs : List Byte} :
    readBytes? (a :: b :: cs) = some bs ↔
      ∃ byte bs', [Text.capitalDigit a, b.toUpper] = byteDigits byte ∧
        readBytes? cs = some bs' ∧ byte :: bs' = bs := by
  have htoOption (n : Nat) : (Text.readNumeral 16 0x100 [a, b]).toOption = some n ↔
      Text.readNumeral 16 0x100 [a, b] = .ok n := by
    cases Text.readNumeral 16 0x100 [a, b] with
    | error e => simp [Except.toOption]
    | ok m => simp [Except.toOption]
  simp only [readBytes?, Option.bind_eq_bind, Option.bind_eq_some_iff, Option.pure_def,
    Option.some.injEq, htoOption, readNumeral_eq_ok_iff_byteDigits]
  constructor
  · rintro ⟨n, ⟨byte, rfl, hbyte⟩, bs', hbs, heq⟩
    rw [BitVec.ofNat_toNat, BitVec.setWidth_eq] at heq
    exact ⟨byte, bs', hbyte, hbs, heq⟩
  · rintro ⟨byte, bs', hbyte, hbs, heq⟩
    refine ⟨byte.toNat, ⟨byte, rfl, hbyte⟩, bs', hbs, ?_⟩
    rw [BitVec.ofNat_toNat, BitVec.setWidth_eq, heq]

/-- Every plus sign stands first of two characters. -/
def PlusFirst (cs : List Char) : Prop := ∀ i, cs[i]? = some '+' → i % 2 = 0

theorem plusFirst_cons_cons {a b : Char} {cs : List Char} :
    PlusFirst (a :: b :: cs) ↔ b ≠ '+' ∧ PlusFirst cs := by
  constructor
  · intro h
    refine ⟨?_, ?_⟩
    · rintro rfl
      have hone := h 1 rfl
      cases hone
    · intro i hi
      have hnext := h (i + 2) hi
      omega
  · rintro ⟨hb, hcs⟩ i hi
    match i with
    | 0 => rfl
    | 1 => exact absurd (Option.some.inj hi) hb
    | i + 2 =>
      have hnext := hcs i hi
      omega

/-- The second character of a pair is a digit and no plus sign. -/
theorem pair_eq_byteDigits_iff {a b : Char} {byte : Byte} :
    [Text.capitalDigit a, b.toUpper] = byteDigits byte ↔
      [Text.capitalDigit a, Text.capitalDigit b] = byteDigits byte ∧ b ≠ '+' := by
  by_cases hplus : b = '+'
  · subst hplus
    have hlow : byte.toNat % 16 < 16 := by omega
    constructor
    · intro h
      rw [byteDigits_eq, List.cons.injEq, List.cons.injEq] at h
      exact absurd h.2.1.symm (Text.toUpper_digitChar_ne_plus hlow)
    · rintro ⟨-, habs⟩
      exact absurd rfl habs
  · have hcapital : Text.capitalDigit b = b.toUpper := if_neg hplus
    simp [hcapital, hplus]

/-- Characters are read as the bytes that are written with the same digits, where a plus sign may
stand for a zero that comes first of two. -/
theorem readBytes?_eq_some_iff {cs : List Char} {bs : List Byte} :
    readBytes? cs = some bs ↔
      cs.map Text.capitalDigit = bs.flatMap byteDigits ∧ PlusFirst cs := by
  induction cs using readBytes?.induct generalizing bs with
  | case1 =>
    cases bs with
    | nil => simp [readBytes?, PlusFirst]
    | cons b bs => simp [readBytes?, byteDigits_eq]
  | case2 c =>
    cases bs with
    | nil => simp [readBytes?]
    | cons b bs => simp [readBytes?, byteDigits_eq]
  | case3 a b cs ih =>
    rw [readBytes?_cons_cons_eq_some_iff, plusFirst_cons_cons]
    cases bs with
    | nil => simp
    | cons byte bs =>
      have hdigits : (a :: b :: cs).map Text.capitalDigit = (byte :: bs).flatMap byteDigits ↔
          [Text.capitalDigit a, Text.capitalDigit b] = byteDigits byte ∧
            cs.map Text.capitalDigit = bs.flatMap byteDigits := by
        rw [List.flatMap_cons, byteDigits_eq]
        simp [and_assoc]
      simp only [pair_eq_byteDigits_iff, ih, hdigits, List.cons.injEq]
      constructor
      · rintro ⟨_, _, ⟨hpair, hb⟩, ⟨hrest, hplus⟩, rfl, rfl⟩
        exact ⟨⟨hpair, hrest⟩, hb, hplus⟩
      · rintro ⟨⟨hpair, hrest⟩, hb, hplus⟩
        exact ⟨byte, bs, ⟨hpair, hb⟩, ⟨hrest, hplus⟩, rfl, rfl⟩

/-- Digits are read in either case. -/
theorem readBytes?_of_map_toUpper {cs : List Char} {bs : List Byte}
    (h : cs.map Char.toUpper = bs.flatMap byteDigits) : readBytes? cs = some bs := by
  have hplus : '+' ∉ cs := by
    intro hmem
    have hupper : '+' ∈ cs.map Char.toUpper := List.mem_map.mpr ⟨'+', hmem, rfl⟩
    rw [h] at hupper
    obtain ⟨d, hd, heq⟩ := exists_of_mem_byteDigits hupper
    exact Text.toUpper_digitChar_ne_plus hd heq.symm
  have hcapital : cs.map Text.capitalDigit = cs.map Char.toUpper := by
    apply List.map_congr_left
    intro c hc
    exact if_neg (ne_of_mem_of_not_mem hc hplus)
  refine readBytes?_eq_some_iff.mpr ⟨hcapital.trans h, ?_⟩
  intro i hi
  exact absurd (List.mem_of_getElem? hi) hplus

/-! ### Records -/

theorem toList_text (r : Record) :
    r.text.toList = ':' :: (r.bytes ++ [r.checksum]).flatMap byteDigits := by
  unfold text
  rw [String.toList_ofList]

theorem map_toUpper_text (r : Record) :
    r.text.toList.map Char.toUpper = ':' :: (r.bytes ++ [r.checksum]).flatMap byteDigits := by
  have hdigits : ∀ c ∈ (r.bytes ++ [r.checksum]).flatMap byteDigits, c.toUpper = c := by
    intro c hc
    obtain ⟨d, -, rfl⟩ := exists_of_mem_byteDigits hc
    exact Char.toUpper_toUpper_eq_toUpper _
  rw [toList_text, List.map_cons, List.map_congr_left hdigits, List.map_id']
  rfl

theorem isBlank_of_mem_digits {bs : List Byte} {c : Char}
    (h : c ∈ ':' :: bs.flatMap byteDigits) : Text.isBlank c = false := by
  rcases List.mem_cons.mp h with rfl | h
  · decide
  · obtain ⟨d, hd, rfl⟩ := exists_of_mem_byteDigits h
    exact Text.isBlank_toUpper_digitChar hd

theorem isBlank_of_mem_text {r : Record} {c : Char} (h : c ∈ r.text.toList) :
    Text.isBlank c = false := by
  rw [toList_text] at h
  exact isBlank_of_mem_digits h

theorem halfBytes_append (h : BitVec 16) : h.extractLsb' 8 8 ++ h.extractLsb' 0 8 = h := by
  rw [BitVec.extractLsb'_append_extractLsb'_eq_extractLsb' (by decide)]
  exact BitVec.extractLsb'_eq_self

/-- What is made of the bytes of a text: the length byte is checked first, then the checksum, then
the kind. -/
theorem parse_of_readBytes? {s : String} {digits : List Char} {count hi lo code found : Byte}
    {payload : List Byte} (htrim : Text.trim s.toList = ':' :: digits)
    (hread : readBytes? digits = some (count :: hi :: lo :: code :: (payload ++ [found]))) :
    parse s =
      if payload.length = count.toNat then
        if Hex.checksum (count :: hi :: lo :: code :: payload) = found then
          (RecordKind.ofCode? code).elim (.error (.unknownKind code))
            fun kind => .ok ⟨kind, hi ++ lo, payload⟩
        else .error (.checksum (Hex.checksum (count :: hi :: lo :: code :: payload)) found)
      else .error (.malformed s) := by
  unfold parse
  rw [htrim]
  simp only [hread, List.length_append, List.length_singleton, Nat.add_right_cancel_iff,
    List.dropLast_concat, List.getLastD_concat]
  cases RecordKind.ofCode? code with
  | none => rfl
  | some kind => rfl

/-- The bytes of a record whose payload fits its length byte are read as the record. -/
theorem parse_of_readBytes?_eq_bytes {s : String} {digits : List Char} {r : Record}
    (htrim : Text.trim s.toList = ':' :: digits)
    (hread : readBytes? digits = some (r.bytes ++ [r.checksum]))
    (h : r.payload.length < 256) : parse s = .ok r := by
  have hcount : r.payload.length = (BitVec.ofNat 8 r.payload.length).toNat := by
    rw [BitVec.toNat_ofNat, Nat.mod_eq_of_lt h]
  have hchecksum : Hex.checksum (BitVec.ofNat 8 r.payload.length :: r.address.extractLsb' 8 8 ::
      r.address.extractLsb' 0 8 :: r.kind.code :: r.payload) = r.checksum := rfl
  rw [parse_of_readBytes? htrim hread, if_pos hcount, if_pos hchecksum, RecordKind.ofCode?_code,
    Option.elim_some, halfBytes_append]

/-- The bytes of a text are read in either case, with any white space around it. -/
theorem exists_readBytes?_of_map_toUpper {before text after : List Char} {bs : List Byte}
    (hbefore : ∀ c ∈ before, Text.isBlank c = true)
    (h : text.map Char.toUpper = ':' :: bs.flatMap byteDigits)
    (hafter : ∀ c ∈ after, Text.isBlank c = true) :
    ∃ digits, Text.trim (before ++ text ++ after) = ':' :: digits ∧
      readBytes? digits = some bs := by
  have hblank : ∀ c ∈ text, Text.isBlank c = false := by
    intro c hc
    rw [Bool.eq_false_iff]
    intro hblank
    have hupper : c.toUpper ∈ text.map Char.toUpper := List.mem_map_of_mem hc
    rw [Text.toUpper_of_isBlank hblank, h] at hupper
    rw [isBlank_of_mem_digits hupper] at hblank
    cases hblank
  rw [Text.trim_append hbefore hblank hafter]
  cases text with
  | nil => cases h
  | cons c digits =>
    rw [List.map_cons, List.cons.injEq] at h
    refine ⟨digits, ?_, readBytes?_of_map_toUpper h.2⟩
    rw [Text.eq_of_toUpper_eq_colon h.1]

/-- The text of a record reads back as the record. -/
theorem parse_text {r : Record} (h : r.payload.length < 256) : parse r.text = .ok r := by
  have hnil : ∀ c ∈ ([] : List Char), Text.isBlank c = true := by simp
  obtain ⟨digits, htrim, hread⟩ := exists_readBytes?_of_map_toUpper hnil (map_toUpper_text r) hnil
  rw [List.nil_append, List.append_nil] at htrim
  exact parse_of_readBytes?_eq_bytes htrim hread h

end Record

end Rv32Asm.Hex

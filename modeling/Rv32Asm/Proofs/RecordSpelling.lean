import Mathlib
import Rv32Asm.Proofs.RecordText

/-!
# How a record may be spelled

The texts that are read as a record are known exactly (`Record.parse_eq_ok_iff`): in capitals, and
with a plus sign taken for a leading zero, they are the text of the record. So a record that is read
has no more bytes than its length byte can count, which is all that there is to being obtainable
(`Record.obtainable_iff`), and its text reads back in either case and with white space around it.
-/

namespace Rv32Asm.Hex

theorem RecordKind.code_of_ofCode? {b : Byte} {kind : RecordKind} (h : ofCode? b = some kind) :
    kind.code = b := by
  unfold ofCode? at h
  simpa using List.find?_some h

theorem halfBytes_of_append (hi lo : Byte) : halfBytes (hi ++ lo) = [hi, lo] := by
  unfold halfBytes
  rw [BitVec.extractLsb'_append_eq_left, BitVec.extractLsb'_append_eq_right]

/-! ### Checksums -/

theorem checksum_eq_neg_sum (bs : List Byte) : checksum bs = -bs.sum := by
  unfold checksum
  rw [List.sum_eq_foldl]

theorem checksum_eq_iff {bs : List Byte} {found : Byte} :
    checksum bs = found ↔ (bs ++ [found]).sum = 0 := by
  rw [checksum_eq_neg_sum, List.sum_append, List.sum_singleton, neg_eq_iff_add_eq_zero]

theorem ofNat_sum_toNat (bs : List Byte) :
    BitVec.ofNat 8 (bs.map BitVec.toNat).sum = bs.sum := by
  induction bs with
  | nil => rfl
  | cons b bs ih =>
    rw [List.map_cons, List.sum_cons, List.sum_cons, BitVec.ofNat_add, ih, BitVec.ofNat_toNat,
      BitVec.setWidth_eq]

namespace Record

/-! ### Accepted texts -/

/-- A text that is not malformed at once is a colon and at least five bytes. -/
theorem malformed_or_exists_bytes (s : String) :
    parse s = .error (.malformed s) ∨
      ∃ digits count hi lo code payload found, Text.trim s.toList = ':' :: digits ∧
        readBytes? digits = some (count :: hi :: lo :: code :: (payload ++ [found])) := by
  unfold parse
  split
  · next digits htrim =>
    split
    · next count hi lo code rest hread =>
      rcases List.eq_nil_or_concat rest with rfl | ⟨payload, found, rfl⟩
      · exact .inl (if_neg (by simp))
      · right
        refine ⟨digits, count, hi, lo, code, payload, found, htrim, ?_⟩
        rw [hread, List.concat_eq_append]
    · exact .inl rfl
  · exact .inl rfl

/-- Bytes are a record if they pass all three checks. -/
theorem parse_eq_ok_iff_checks {s : String} {digits : List Char} {count hi lo code found : Byte}
    {payload : List Byte} {r : Record} (htrim : Text.trim s.toList = ':' :: digits)
    (hread : readBytes? digits = some (count :: hi :: lo :: code :: (payload ++ [found]))) :
    parse s = .ok r ↔
      ∃ kind, RecordKind.ofCode? code = some kind ∧ payload.length = count.toNat ∧
        Hex.checksum (count :: hi :: lo :: code :: payload) = found ∧
        ⟨kind, hi ++ lo, payload⟩ = r := by
  rw [parse_of_readBytes? htrim hread]
  by_cases hcount : payload.length = count.toNat
  · rw [if_pos hcount]
    by_cases hchecksum : Hex.checksum (count :: hi :: lo :: code :: payload) = found
    · rw [if_pos hchecksum]
      cases RecordKind.ofCode? code with
      | none => simp
      | some kind => simp [hcount, hchecksum]
    · rw [if_neg hchecksum]
      simp [hchecksum]
  · rw [if_neg hcount]
    simp [hcount]

/-- A text is read as a record exactly if it holds the bytes of the record, and the payload fits the
length byte. -/
theorem parse_eq_ok_iff {s : String} {r : Record} :
    parse s = .ok r ↔
      r.payload.length < 256 ∧ ∃ digits, Text.trim s.toList = ':' :: digits ∧
        readBytes? digits = some (r.bytes ++ [r.checksum]) := by
  constructor
  · intro h
    rcases malformed_or_exists_bytes s with
      hmalformed | ⟨digits, count, hi, lo, code, payload, found, htrim, hread⟩
    · rw [hmalformed] at h
      cases h
    · obtain ⟨kind, hkind, hcount, hchecksum, rfl⟩ := (parse_eq_ok_iff_checks htrim hread).mp h
      have hbytes : bytes ⟨kind, hi ++ lo, payload⟩ = count :: hi :: lo :: code :: payload := by
        unfold bytes
        rw [halfBytes_of_append, RecordKind.code_of_ofCode? hkind, hcount, BitVec.ofNat_toNat,
          BitVec.setWidth_eq]
        rfl
      refine ⟨?_, digits, htrim, ?_⟩
      · change payload.length < 256
        omega
      · unfold checksum
        rw [hread, hbytes, hchecksum]
        rfl
  · rintro ⟨hlength, digits, htrim, hread⟩
    exact parse_of_readBytes?_eq_bytes htrim hread hlength

/-- A text is read as a record exactly if, without the white space around it, it is a colon and
hexadecimal digits of either case that in capitals are the text of the record, where a plus sign may
stand for a zero that comes first of the two digits of a byte. -/
theorem accepted_texts (s : String) (r : Record) :
    parse s = .ok r ↔
      r.payload.length ≤ 255 ∧ ∃ digits, Text.trim s.toList = ':' :: digits ∧
        (∀ (i : Nat) (c : Char), digits[i]? = some c →
          Text.IsHexDigit c ∨ c = '+' ∧ i % 2 = 0) ∧
        String.ofList (':' :: digits.map Text.capitalDigit) = r.text := by
  have htext (digits : List Char) : String.ofList (':' :: digits.map Text.capitalDigit) = r.text ↔
      digits.map Text.capitalDigit = (r.bytes ++ [r.checksum]).flatMap byteDigits := by
    unfold text
    rw [String.ofList_inj, List.cons.injEq]
    exact and_iff_right rfl
  have hlength : r.payload.length < 256 ↔ r.payload.length ≤ 255 := by omega
  rw [parse_eq_ok_iff, hlength]
  refine and_congr_right fun _ => exists_congr fun digits => and_congr_right fun _ => ?_
  rw [readBytes?_eq_some_iff, htext]
  constructor
  · rintro ⟨hdigits, hplus⟩
    refine ⟨?_, hdigits⟩
    intro i c hc
    have hmem : Text.capitalDigit c ∈ digits.map Text.capitalDigit :=
      List.mem_map_of_mem (List.mem_of_getElem? hc)
    rw [hdigits] at hmem
    obtain ⟨d, hd, heq⟩ := exists_of_mem_byteDigits hmem
    rcases (Text.capitalDigit_eq_iff hd).mp heq with hvalue | ⟨rfl, -⟩
    · exact .inl (Text.isHexDigit_of_hexDigitValue? hvalue)
    · exact .inr ⟨rfl, hplus i hc⟩
  · rintro ⟨hdigit, hdigits⟩
    refine ⟨hdigits, ?_⟩
    intro i hi
    rcases hdigit i '+' hi with habs | ⟨-, heven⟩
    · exact absurd habs (by decide)
    · exact heven

/-- A plus sign passes for a digit: an end-of-file record with `+1` for its kind is accepted. -/
theorem accepts_plus_sign :
    parse ":000000+1FF" = .ok .endOfFile ∧
    ¬ ∃ digits, Text.trim ":000000+1FF".toList = ':' :: digits ∧
      (∀ c ∈ digits, Text.IsHexDigit c) ∧
      String.ofList (':' :: digits.map Char.toUpper) = endOfFile.text := by
  refine ⟨by rfl, ?_⟩
  rintro ⟨digits, htrim, hdigit, -⟩
  have hdigits : digits = "000000+1FF".toList := by
    have htext : Text.trim ":000000+1FF".toList = ':' :: "000000+1FF".toList := by rfl
    rw [htext] at htrim
    exact (List.cons.inj htrim).2.symm
  have hplus := hdigit '+' (by rw [hdigits]; decide)
  revert hplus
  decide

/-! ### Obtainable records -/

/-- The records that can be had: those that are built for an image, and those that are read. -/
inductive Obtainable : Record → Prop
  | data (address : BitVec 16) (word : Word) : Obtainable (.data address word)
  | endOfFile : Obtainable .endOfFile
  | extendedLinearAddress (upper : BitVec 16) : Obtainable (.extendedLinearAddress upper)
  | parsed {s : String} {r : Record} (h : parse s = .ok r) : Obtainable r

theorem obtainable_iff {r : Record} : r.Obtainable ↔ r.payload.length < 256 := by
  constructor
  · intro h
    cases h with
    | data address word => simp [Record.data, wordBytes]
    | endOfFile => decide
    | extendedLinearAddress upper => simp [Record.extendedLinearAddress, halfBytes]
    | parsed h => exact (parse_eq_ok_iff.mp h).1
  · intro h
    exact .parsed (parse_text h)

theorem toNat_count {r : Record} (h : r.Obtainable) :
    (BitVec.ofNat 8 r.payload.length).toNat = r.payload.length := by
  rw [BitVec.toNat_ofNat, Nat.mod_eq_of_lt (obtainable_iff.mp h)]

/-- The bytes of a record and its checksum cancel out. -/
theorem sum_bytes_append_checksum (r : Record) : (r.bytes ++ [r.checksum]).sum = 0 :=
  checksum_eq_iff.mp rfl

/-- The length byte of every obtainable record is the length of its payload, the bytes with the
checksum add up to zero, and the text reads back as the record, also with letters of the other case
and with white space around it. -/
theorem text_round_trips {r : Record} (h : r.Obtainable) :
    r.payload.length ≤ 255 ∧
    (∃ count rest, r.bytes = count :: rest ∧ count.toNat = r.payload.length) ∧
    ((r.bytes ++ [r.checksum]).map BitVec.toNat).sum % 256 = 0 ∧
    parse r.text = .ok r ∧
    ∀ before text after : String, (∀ c ∈ before.toList, Text.isBlank c = true) →
      (∀ c ∈ after.toList, Text.isBlank c = true) →
      text.toList.map Char.toUpper = r.text.toList.map Char.toUpper →
      parse (before ++ text ++ after) = .ok r := by
  have hlength := obtainable_iff.mp h
  refine ⟨by omega, ⟨_, _, rfl, toNat_count h⟩, ?_, parse_text hlength, ?_⟩
  · have hsum := ofNat_sum_toNat (r.bytes ++ [r.checksum])
    rw [sum_bytes_append_checksum] at hsum
    simpa using congrArg BitVec.toNat hsum
  · intro before text after hbefore hafter htext
    rw [map_toUpper_text] at htext
    obtain ⟨digits, htrim, hread⟩ := exists_readBytes?_of_map_toUpper hbefore htext hafter
    rw [← String.toList_append, ← String.toList_append] at htrim
    exact parse_of_readBytes?_eq_bytes htrim hread hlength

/-- A record of five bytes, which only reading gives, in letters of both cases and between a
no-break space and the end of the line. -/
theorem five_bytes_round_trip :
    parse ":05abcd00deadbeef99b2" =
      .ok ⟨.data, 0xabcd#16, [0xde#8, 0xad#8, 0xbe#8, 0xef#8, 0x99#8]⟩ ∧
    parse ("\u00a0" ++ ":05ABcd00DEADbeef99B2" ++ "\r\n") =
      .ok ⟨.data, 0xabcd#16, [0xde#8, 0xad#8, 0xbe#8, 0xef#8, 0x99#8]⟩ := by
  have h : parse ":05abcd00deadbeef99b2" =
      .ok ⟨.data, 0xabcd#16, [0xde#8, 0xad#8, 0xbe#8, 0xef#8, 0x99#8]⟩ := by rfl
  obtain ⟨-, -, -, -, hspelled⟩ := text_round_trips (.parsed h)
  refine ⟨h, hspelled "\u00a0" ":05ABcd00DEADbeef99B2" "\r\n" ?_ ?_ (by decide +kernel)⟩
  · simp [Text.isBlank, Text.blankRanges]
  · simp [Text.isBlank, Text.blankRanges]

end Record

end Rv32Asm.Hex

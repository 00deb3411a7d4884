import Mathlib
import Rv32Asm.Proofs.RecordSpelling

/-!
# Damaged records

A record in which one byte is changed is never read as a record. A changed length byte no longer
counts the payload, and any other change leaves the count right and the sum of the bytes different
from zero, which is noticed before the kind is looked at.
-/

namespace Rv32Asm.Hex

theorem sum_set_ne_zero {bs : List Byte} {p : Nat} {original b : Byte} (hsum : bs.sum = 0)
    (hp : bs[p]? = some original) (hb : b ≠ original) : (bs.set p b).sum ≠ 0 := by
  obtain ⟨hlt, hget⟩ := List.getElem?_eq_some_iff.mp hp
  rw [List.sum_set', dif_pos hlt, hget, hsum, zero_add]
  intro hzero
  exact hb (neg_add_eq_zero.mp hzero).symm

namespace Record

/-- The parts of a list of at least five bytes. -/
theorem exists_fields {bs : List Byte} {n : Nat} (h : bs.length = n + 5) :
    ∃ count hi lo code payload found, payload.length = n ∧
      bs = count :: hi :: lo :: code :: (payload ++ [found]) := by
  match bs, h with
  | count :: hi :: lo :: code :: b :: rest, h =>
    refine ⟨count, hi, lo, code, (b :: rest).dropLast, (b :: rest).getLast (by simp), ?_, ?_⟩
    · simp at h ⊢
      omega
    · rw [List.dropLast_append_getLast]

theorem length_bytes (r : Record) : r.bytes.length = r.payload.length + 4 := by
  simp [bytes, halfBytes]

/-- Bytes that their length byte counts wrongly are refused as malformed. -/
theorem parse_of_wrong_count {s : String} {digits : List Char} {count hi lo code found : Byte}
    {payload : List Byte} (htrim : Text.trim s.toList = ':' :: digits)
    (hread : readBytes? digits = some (count :: hi :: lo :: code :: (payload ++ [found])))
    (h : count.toNat ≠ payload.length) : parse s = .error (.malformed s) := by
  rw [parse_of_readBytes? htrim hread, if_neg (Ne.symm h)]

/-- Bytes that are counted right and do not add up to zero are refused for their checksum, whatever
their kind. -/
theorem parse_of_wrong_sum {s : String} {digits : List Char} {count hi lo code found : Byte}
    {payload : List Byte} (htrim : Text.trim s.toList = ':' :: digits)
    (hread : readBytes? digits = some (count :: hi :: lo :: code :: (payload ++ [found])))
    (hcount : count.toNat = payload.length)
    (h : (count :: hi :: lo :: code :: (payload ++ [found])).sum ≠ 0) :
    parse s = .error (.checksum (-(count :: hi :: lo :: code :: payload).sum) found) := by
  have hchecksum : Hex.checksum (count :: hi :: lo :: code :: payload) ≠ found := by
    intro heq
    exact h (checksum_eq_iff.mp heq)
  rw [parse_of_readBytes? htrim hread, if_pos hcount.symm, if_neg hchecksum, checksum_eq_neg_sum]

/-- Every change of one byte of an obtainable record is noticed. If it is the length byte, the text
is malformed; otherwise the last byte is refused as the checksum of the others, also if the changed
byte is the kind and stands for none. -/
theorem changed_byte_refused {r : Record} (hr : r.Obtainable) {p : Nat} {original b : Byte}
    (hp : (r.bytes ++ [r.checksum])[p]? = some original) (hb : b ≠ original) {s : String}
    (hs : s.toList.map Char.toUpper =
      ':' :: ((r.bytes ++ [r.checksum]).set p b).flatMap byteDigits) :
    (p = 0 → parse s = .error (.malformed s)) ∧
    (p ≠ 0 → ∃ others found, (r.bytes ++ [r.checksum]).set p b = others ++ [found] ∧
      parse s = .error (.checksum (-others.sum) found)) := by
  have hnil : ∀ c ∈ ([] : List Char), Text.isBlank c = true := by simp
  obtain ⟨digits, htrim, hread⟩ := exists_readBytes?_of_map_toUpper hnil hs hnil
  rw [List.nil_append, List.append_nil] at htrim
  have hsum := sum_set_ne_zero (sum_bytes_append_checksum r) hp hb
  have hcount := toNat_count hr
  have hlength : ((r.bytes ++ [r.checksum]).set p b).length = r.payload.length + 5 := by
    simp [length_bytes]
  obtain ⟨count, hi, lo, code, payload, found, hpayload, hbytes⟩ := exists_fields hlength
  have hfirst : ((r.bytes ++ [r.checksum]).set p b)[0]? = some count := by
    rw [hbytes]
    rfl
  rw [hbytes] at hread hsum
  have hlead : (r.bytes ++ [r.checksum])[0]? = some (BitVec.ofNat 8 r.payload.length) := rfl
  constructor
  · rintro rfl
    rw [List.getElem?_set_self (by simp)] at hfirst
    cases hfirst
    apply parse_of_wrong_count htrim hread
    intro heq
    rw [hlead] at hp
    cases hp
    exact hb (BitVec.eq_of_toNat_eq (by omega))
  · intro hpos
    rw [List.getElem?_set_ne hpos, hlead] at hfirst
    cases hfirst
    refine ⟨_ :: hi :: lo :: code :: payload, found, hbytes, ?_⟩
    exact parse_of_wrong_sum htrim hread (by omega) hsum

/-- An end-of-file record with a kind that there is not, and with a byte too many in its count. -/
theorem changed_endOfFile_refused :
    endOfFile.bytes ++ [endOfFile.checksum] = [0x00#8, 0x00#8, 0x00#8, 0x01#8, 0xff#8] ∧
    parse ":00000007ff" = .error (.checksum 0xf9#8 0xff#8) ∧
    parse ":01000001FF" = .error (.malformed ":01000001FF") := by
  have hbytes : endOfFile.bytes ++ [endOfFile.checksum] =
      [0x00#8, 0x00#8, 0x00#8, 0x01#8, 0xff#8] := by decide
  refine ⟨hbytes, ?_, ?_⟩
  · have hkind := changed_byte_refused .endOfFile (p := 3) (b := 0x07#8) (s := ":00000007ff") rfl
      (by decide) (by decide +kernel)
    obtain ⟨others, found, hlist, hparse⟩ := hkind.2 (by decide)
    have hparts : [0x00#8, 0x00#8, 0x00#8, 0x07#8] ++ [0xff#8] = others ++ [found] := hlist
    obtain ⟨rfl, hfound⟩ := List.append_inj' hparts rfl
    cases hfound
    exact hparse
  · have hcount := changed_byte_refused .endOfFile (p := 0) (b := 0x01#8) (s := ":01000001FF") rfl
      (by decide) (by decide +kernel)
    exact hcount.1 rfl

end Record

end Rv32Asm.Hex

import Mathlib
import Rv32Asm.Isa.Encoding

/-!
# Instructions and machine words

Encoding and decoding are inverse to each other. An instruction word is the disjoint union of the
fields of its instruction, each of them moved to its place in the word (`placedFields`); the pieces
of an immediate have the places that `Immediate.placed` gives them.
-/

namespace Rv32Asm

/-! ### Decoding an encoded instruction -/

namespace Opcode

theorem ofNat?_eq_some_iff {n : Nat} {o : Opcode} : ofNat? n = some o ↔ o.bits.toNat = n := by
  constructor
  · intro h
    simpa using List.find?_some h
  · rintro rfl
    cases o <;> rfl

/-- The nine major opcodes as numbers. -/
theorem exists_bits_iff {x : BitVec 7} :
    (∃ o : Opcode, x = o.bits) ↔
      x.toNat ∈ [0x03, 0x13, 0x17, 0x23, 0x33, 0x37, 0x63, 0x67, 0x6f] := by
  constructor
  · rintro ⟨o, rfl⟩
    cases o <;> decide
  · intro h
    simp only [List.mem_cons, List.not_mem_nil, or_false] at h
    rcases h with h | h | h | h | h | h | h | h | h
    · exact ⟨load, BitVec.eq_of_toNat_eq h⟩
    · exact ⟨opImm, BitVec.eq_of_toNat_eq h⟩
    · exact ⟨auipc, BitVec.eq_of_toNat_eq h⟩
    · exact ⟨store, BitVec.eq_of_toNat_eq h⟩
    · exact ⟨op, BitVec.eq_of_toNat_eq h⟩
    · exact ⟨lui, BitVec.eq_of_toNat_eq h⟩
    · exact ⟨branch, BitVec.eq_of_toNat_eq h⟩
    · exact ⟨jalr, BitVec.eq_of_toNat_eq h⟩
    · exact ⟨jal, BitVec.eq_of_toNat_eq h⟩

end Opcode

namespace Word

theorem opcode?_eq_some_iff {w : Word} {o : Opcode} :
    opcode? w = some o ↔ w.extractLsb' 0 7 = o.bits := by
  unfold opcode?
  rw [Opcode.ofNat?_eq_some_iff, BitVec.toNat_inj, eq_comm]

/-- A word is an instruction exactly if its lowest seven bits are an opcode. -/
theorem isSome_decode?_iff (w : Word) :
    (decode? w).isSome ↔
      w.toNat % 2 ^ 7 ∈ [0x03, 0x13, 0x17, 0x23, 0x33, 0x37, 0x63, 0x67, 0x6f] := by
  have hlow : w.toNat % 2 ^ 7 = (w.extractLsb' 0 7).toNat := by
    rw [BitVec.extractLsb'_toNat, Nat.shiftRight_zero]
  unfold decode?
  rw [Option.isSome_map, Option.isSome_iff_exists, hlow, ← Opcode.exists_bits_iff]
  constructor
  · rintro ⟨o, ho⟩
    exact ⟨o, opcode?_eq_some_iff.mp ho⟩
  · rintro ⟨o, ho⟩
    exact ⟨o, opcode?_eq_some_iff.mpr ho⟩

end Word

namespace Instruction

theorem opcode?_encode (inst : Instruction) : Word.opcode? inst.encode = some inst.opcode := by
  rw [Word.opcode?_eq_some_iff]
  cases inst <;> exact BitVec.extractLsb'_append_eq_right

/-- A word that holds an instruction is read back as that instruction. -/
theorem decode?_encode (inst : Instruction) : Word.decode? inst.encode = some inst := by
  unfold Word.decode?
  rw [opcode?_encode, Option.map_some]
  -- each field is cut out of the concatenation at the place where it was put; the split offsets
  -- are then glued together again
  cases inst with
  | r funct3 funct7 rd rs1 rs2 =>
    simp (disch := decide) only [opcode, encode, Word.funct3, Word.funct7, Word.rd, Word.rs1,
      Word.rs2, BitVec.extractLsb'_append_eq_of_le, BitVec.extractLsb'_append_eq_of_add_le,
      Nat.reduceSub, BitVec.extractLsb'_eq_self]
  | i op funct3 rd rs1 imm =>
    cases op
    all_goals
      simp (disch := decide) only [opcode, ImmOpcode.opcode, encode, Word.funct3, Word.immI,
        Word.rd, Word.rs1, BitVec.extractLsb'_append_eq_of_le,
        BitVec.extractLsb'_append_eq_of_add_le, Nat.reduceSub, BitVec.extractLsb'_eq_self]
  | s funct3 rs1 rs2 imm =>
    simp (disch := decide) only [opcode, encode, Word.funct3, Word.immS, Word.rs1, Word.rs2,
      BitVec.extractLsb'_append_eq_of_le, BitVec.extractLsb'_append_eq_of_add_le, Nat.reduceSub,
      BitVec.extractLsb'_eq_self]
    rw [BitVec.extractLsb'_append_extractLsb'_eq_extractLsb' (by decide)]
    exact congrArg _ (congrArg _ BitVec.extractLsb'_eq_self)
  | b funct3 rs1 rs2 offset =>
    simp (disch := decide) only [opcode, encode, Word.funct3, Word.offsetB, Word.rs1, Word.rs2,
      BitVec.extractLsb'_append_eq_of_le, BitVec.extractLsb'_append_eq_of_add_le, Nat.reduceSub,
      BitVec.extractLsb'_eq_self]
    rw [BitVec.extractLsb'_append_extractLsb'_eq_extractLsb' (by decide),
      BitVec.extractLsb'_append_extractLsb'_eq_extractLsb' (by decide),
      BitVec.extractLsb'_append_extractLsb'_eq_extractLsb' (by decide)]
    exact congrArg _ (congrArg _ BitVec.extractLsb'_eq_self)
  | u op rd imm =>
    cases op
    all_goals
      simp (disch := decide) only [opcode, UpperOp.opcode, encode, Word.immU, Word.rd,
        BitVec.extractLsb'_append_eq_of_le, BitVec.extractLsb'_append_eq_of_add_le, Nat.reduceSub,
        BitVec.extractLsb'_eq_self]
  | j rd offset =>
    simp (disch := decide) only [opcode, encode, Word.offsetJ, Word.rd,
      BitVec.extractLsb'_append_eq_of_le, BitVec.extractLsb'_append_eq_of_add_le, Nat.reduceSub,
      BitVec.extractLsb'_eq_self]
    rw [BitVec.extractLsb'_append_extractLsb'_eq_extractLsb' (by decide),
      BitVec.extractLsb'_append_extractLsb'_eq_extractLsb' (by decide),
      BitVec.extractLsb'_append_extractLsb'_eq_extractLsb' (by decide)]
    exact congrArg _ (congrArg _ BitVec.extractLsb'_eq_self)

theorem encode_injective : Function.Injective encode := by
  intro a b h
  have hdecoded : some a = some b := by
    rw [← decode?_encode a, ← decode?_encode b, h]
  exact Option.some.inj hdecoded

/-! ### Encoding a decoded word -/

/-- The instruction read from a word is encoded as that word. -/
theorem encode_of_decode? {w : Word} {inst : Instruction} (h : Word.decode? w = some inst) :
    inst.encode = w := by
  unfold Word.decode? at h
  obtain ⟨o, ho, rfl⟩ := Option.map_eq_some_iff.mp h
  have hbits := Word.opcode?_eq_some_iff.mp ho
  -- the fields are neighbouring slices of `w`, so laying them side by side gives `w`
  cases o
  all_goals
    simp (disch := decide) only [encode, ImmOpcode.opcode, UpperOp.opcode, Word.funct3, Word.funct7,
      Word.rd, Word.rs1, Word.rs2, Word.immI, Word.immS, Word.offsetB, Word.immU, Word.offsetJ,
      BitVec.extractLsb'_append_eq_of_le, BitVec.extractLsb'_append_eq_of_add_le, Nat.reduceSub,
      BitVec.extractLsb'_eq_self]
    rw [← hbits]
    simp (disch := decide) only [BitVec.extractLsb'_append_extractLsb'_eq_extractLsb']
    exact BitVec.extractLsb'_eq_self

end Instruction

/-! ### The places of the fields -/

/-- A field moved up to the place that starts at bit `lsb` of the word. -/
@[irreducible]
def place {n : Nat} (x : BitVec n) (lsb : Nat) : Word := x.setWidth 32 <<< lsb

theorem getLsbD_place {n : Nat} (x : BitVec n) (lsb : Nat) {k : Nat} (hk : k < 32) :
    (place x lsb).getLsbD k = (decide (lsb ≤ k) && x.getLsbD (k - lsb)) := by
  have hsub : k - lsb < 32 := by omega
  unfold place
  rw [BitVec.getLsbD_shiftLeft, BitVec.getLsbD_setWidth]
  by_cases h : lsb ≤ k
  · simp [hk, hsub, h]
  · simp [h, Nat.lt_of_not_le h]

theorem place_zero (w : Word) : place w 0 = w := by
  unfold place
  rw [BitVec.shiftLeft_zero, BitVec.setWidth_eq]

theorem place_setWidth {n w : Nat} (x : BitVec n) (lsb : Nat) (h : n ≤ w) :
    place (x.setWidth w) lsb = place x lsb := by
  unfold place
  rw [BitVec.setWidth_setWidth (by omega)]

/-- What stands in front in a concatenation is placed higher by the width of what follows. -/
theorem place_append {m n : Nat} (x : BitVec m) (y : BitVec n) (lsb : Nat) :
    place (x ++ y) lsb = place x (n + lsb) ||| place y lsb := by
  apply BitVec.eq_of_getLsbD_eq
  intro k hk
  rw [BitVec.getLsbD_or, getLsbD_place _ _ hk, getLsbD_place _ _ hk, getLsbD_place _ _ hk,
    BitVec.getLsbD_append]
  by_cases h : k - lsb < n
  · have hx : ¬ n + lsb ≤ k := by omega
    simp [h, hx]
  · have hy : y.getLsbD (k - lsb) = false := BitVec.getLsbD_of_ge _ _ (by omega)
    have hsub : k - lsb - n = k - (n + lsb) := by omega
    have hle : lsb ≤ k ↔ n + lsb ≤ k := by omega
    simp [h, hy, hsub, hle]

/-- Two fields have no bit in common if one ends where or before the other starts. -/
theorem place_and_place {m n : Nat} (x : BitVec m) (y : BitVec n) {k l : Nat}
    (h : k + m ≤ l ∨ l + n ≤ k) : place x k &&& place y l = 0 := by
  apply BitVec.eq_of_getLsbD_eq
  intro i hi
  rw [BitVec.getLsbD_and, getLsbD_place _ _ hi, getLsbD_place _ _ hi]
  rcases h with h | h
  · by_cases hl : l ≤ i
    · have hx : x.getLsbD (i - k) = false := BitVec.getLsbD_of_ge _ _ (by omega)
      simp [hx]
    · simp [hl]
  · by_cases hk : k ≤ i
    · have hy : y.getLsbD (i - l) = false := BitVec.getLsbD_of_ge _ _ (by omega)
      simp [hy]
    · simp [hk]

/-- The pieces of an immediate at their places in the word. -/
def Immediate.placed : Immediate → Word
  | i imm11_0 => place imm11_0 20
  | s imm11_5 imm4_0 => place imm11_5 25 ||| place imm4_0 7
  | b imm12 imm10_5 imm4_1 imm11 =>
    place imm12 31 ||| place imm10_5 25 ||| place imm4_1 8 ||| place imm11 7
  | u imm31_12 => place imm31_12 12
  | j imm20 imm10_1 imm11 imm19_12 =>
    place imm20 31 ||| place imm10_1 21 ||| place imm11 20 ||| place imm19_12 12

namespace Instruction

/-- The fields that an instruction has, at their places in the word; an absent field has none. -/
def placedFields (inst : Instruction) : List Word :=
  [some (place inst.opcode.bits 0), inst.funct3?.map (place · 12), inst.funct7?.map (place · 25),
   inst.rd?.map (place · 7), inst.rs1?.map (place · 15), inst.rs2?.map (place · 20),
   inst.immediate?.map Immediate.placed].filterMap id

theorem placedFields_r (funct3 : BitVec 3) (funct7 : BitVec 7) (rd rs1 rs2 : Reg) :
    placedFields (r funct3 funct7 rd rs1 rs2) =
      [place Opcode.op.bits 0, place funct3 12, place funct7 25, place rd 7, place rs1 15,
       place rs2 20] := rfl

theorem placedFields_i (op : ImmOpcode) (funct3 : BitVec 3) (rd rs1 : Reg) (imm : BitVec 12) :
    placedFields (i op funct3 rd rs1 imm) =
      [place op.opcode.bits 0, place funct3 12, place rd 7, place rs1 15, place imm 20] := by
  change [place op.opcode.bits 0, _, _, _, Immediate.placed (.ofImm12 imm)] = _
  simp (disch := decide) only [Immediate.ofImm12, Immediate.placed, place_setWidth]

theorem placedFields_s (funct3 : BitVec 3) (rs1 rs2 : Reg) (imm : BitVec 12) :
    placedFields (s funct3 rs1 rs2 imm) =
      [place Opcode.store.bits 0, place funct3 12, place rs1 15, place rs2 20,
       place (imm.extractLsb' 5 7) 25 ||| place (imm.extractLsb' 0 5) 7] := by
  change [place Opcode.store.bits 0, _, _, _, Immediate.placed (.ofStore imm)] = _
  simp (disch := decide) only [Immediate.ofStore, Immediate.placed, place_setWidth]

theorem placedFields_b (funct3 : BitVec 3) (rs1 rs2 : Reg) (offset : BitVec 12) :
    placedFields (b funct3 rs1 rs2 offset) =
      [place Opcode.branch.bits 0, place funct3 12, place rs1 15, place rs2 20,
       place (offset.extractLsb' 11 1) 31 ||| place (offset.extractLsb' 4 6) 25
         ||| place (offset.extractLsb' 0 4) 8 ||| place (offset.extractLsb' 10 1) 7] := by
  change [place Opcode.branch.bits 0, _, _, _, Immediate.placed (.ofBranch (offset ++ 0#1))] = _
  simp (disch := decide) only [Immediate.ofBranch, Immediate.placed, place_setWidth,
    BitVec.extractLsb'_append_eq_of_le, Nat.reduceSub]

theorem placedFields_u (op : UpperOp) (rd : Reg) (imm : BitVec 20) :
    placedFields (u op rd imm) = [place op.opcode.bits 0, place rd 7, place imm 12] := by
  change [place op.opcode.bits 0, _, Immediate.placed (.ofUpper imm)] = _
  simp (disch := decide) only [Immediate.ofUpper, Immediate.placed, place_setWidth]

theorem placedFields_j (rd : Reg) (offset : BitVec 20) :
    placedFields (j rd offset) =
      [place Opcode.jal.bits 0, place rd 7,
       place (offset.extractLsb' 19 1) 31 ||| place (offset.extractLsb' 0 10) 21
         ||| place (offset.extractLsb' 10 1) 20 ||| place (offset.extractLsb' 11 8) 12] := by
  change [place Opcode.jal.bits 0, _, Immediate.placed (.ofJump (offset ++ 0#1))] = _
  simp (disch := decide) only [Immediate.ofJump, Immediate.placed, place_setWidth,
    BitVec.extractLsb'_append_eq_of_le, Nat.reduceSub]

/-- The word of an instruction is the union of its fields. -/
theorem encode_eq_foldl_or (inst : Instruction) :
    inst.encode = inst.placedFields.foldl (· ||| ·) 0 := by
  rw [← place_zero inst.encode]
  cases inst
  all_goals
    simp only [placedFields_r, placedFields_i, placedFields_s, placedFields_b, placedFields_u,
      placedFields_j, encode, place_append]
    simp only [List.foldl_cons, List.foldl_nil, Nat.reduceAdd, BitVec.ofNat_eq_ofNat,
      BitVec.zero_or]
    ac_rfl

/-- No two fields of an instruction overlap. -/
theorem placedFields_disjoint (inst : Instruction) :
    inst.placedFields.Pairwise fun a b => a &&& b = 0 := by
  cases inst
  all_goals
    simp (disch := decide) only [placedFields_r, placedFields_i, placedFields_s, placedFields_b,
      placedFields_u, placedFields_j, List.pairwise_cons, List.mem_cons, List.not_mem_nil, or_false,
      forall_eq_or_imp, forall_eq, BitVec.and_or_distrib_left, place_and_place, BitVec.or_self,
      IsEmpty.forall_iff, implies_true, List.Pairwise.nil, and_self]

/-! ### The fields of a format -/

theorem fields_eq_format_fields (inst : Instruction) : inst.fields = inst.format.fields := by
  cases inst
  case i op funct3 rd rs1 imm =>
    -- the function code may turn format I into the shift format, which has the same fields
    have hfields : (i op funct3 rd rs1 imm).format.fields = Format.i.fields := by
      cases op with
      | jalr => rfl
      | load => rfl
      | opImm =>
        simp only [format, opcode, ImmOpcode.opcode, Format.of]
        split <;> rfl
    rw [hfields]
    simp only [fields, rd?, rs1?, rs2?, funct3?, funct7?, immediate?, Option.isSome_some,
      Option.isSome_none]
    decide
  case u op rd imm =>
    have hfields : (u op rd imm).format.fields = Format.u.fields := by
      cases op <;> rfl
    rw [hfields]
    simp only [fields, rd?, rs1?, rs2?, funct3?, funct7?, immediate?, Option.isSome_some,
      Option.isSome_none]
    decide
  all_goals
    simp only [fields, format, opcode, Format.of, rd?, rs1?, rs2?, funct3?, funct7?, immediate?,
      Option.isSome_some, Option.isSome_none]
    decide

/-- Encoding and decoding are inverse to each other: every instruction is read back from its word
with all its fields, which are those of its format and stand side by side in the word, and every
word with a known opcode is the word of the instruction read from it. -/
theorem encode_decode_inverse :
    (∀ inst : Instruction, Word.decode? inst.encode = some inst ∧
      inst.fields = inst.format.fields ∧
      inst.encode = inst.placedFields.foldl (· ||| ·) 0 ∧
      inst.placedFields.Pairwise fun a b => a &&& b = 0) ∧
    (∀ w : Word, ((Word.decode? w).isSome ↔
        w.toNat % 2 ^ 7 ∈ [0x03, 0x13, 0x17, 0x23, 0x33, 0x37, 0x63, 0x67, 0x6f]) ∧
      ∀ inst, Word.decode? w = some inst → inst.encode = w) ∧
    Function.Injective encode := by
  refine ⟨?_, ?_, encode_injective⟩
  · intro inst
    exact ⟨decode?_encode inst, fields_eq_format_fields inst, encode_eq_foldl_or inst,
      placedFields_disjoint inst⟩
  · intro w
    exact ⟨Word.isSome_decode?_iff w, fun inst h => encode_of_decode? h⟩

end Instruction

end Rv32Asm

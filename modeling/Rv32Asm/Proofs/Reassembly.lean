import Mathlib
import Rv32Asm.Proofs.Build
import Rv32Asm.Proofs.Describe

/-!
# Disassembling and assembling again

The operation that an instruction shows in a disassembly (`Instruction.operation`) can be built, and
gives the machine word back with the exception of a `funct7` code that is ignored, which becomes
zero. The other way round, the instruction that an operation builds shows the same operation.
-/

namespace Rv32Asm

/-! ### Clearing the `funct7` code of a word -/

/-- The word with its bits 31 to 25 cleared. -/
def Word.clearFunct7 (w : Word) : Word := w &&& 0x01ffffff#32

theorem Word.toNat_clearFunct7 (w : Word) : (clearFunct7 w).toNat = w.toNat % 2 ^ 25 := by
  have hmask : (0x01ffffff#32).toNat = 2 ^ 25 - 1 := rfl
  rw [clearFunct7, BitVec.toNat_and, hmask, Nat.and_two_pow_sub_one_eq_mod]

theorem Word.clearFunct7_eq_self_iff (w : Word) : clearFunct7 w = w ↔ funct7 w = 0#7 := by
  have hcode : (funct7 w).toNat = w.toNat / 2 ^ 25 := by
    rw [funct7, BitVec.extractLsb'_toNat, Nat.shiftRight_eq_div_pow]
    omega
  rw [← BitVec.toNat_inj, ← BitVec.toNat_inj, toNat_clearFunct7, hcode, BitVec.toNat_ofNat]
  omega

namespace Instruction

theorem clearFunct7_encode_r (funct3 : BitVec 3) (funct7 : BitVec 7) (rd rs1 rs2 : Reg) :
    Word.clearFunct7 (r funct3 funct7 rd rs1 rs2).encode = (r funct3 0#7 rd rs1 rs2).encode := by
  apply BitVec.eq_of_toNat_eq
  rw [Word.toNat_clearFunct7]
  simp only [encode, toNat_append_eq, BitVec.toNat_ofNat]
  omega

theorem clearFunct7_encode_i (op : ImmOpcode) (funct3 : BitVec 3) (rd rs1 : Reg)
    (imm : BitVec 12) :
    Word.clearFunct7 (i op funct3 rd rs1 imm).encode =
      (i op funct3 rd rs1 (0#7 ++ imm.extractLsb' 0 5)).encode := by
  apply BitVec.eq_of_toNat_eq
  rw [Word.toNat_clearFunct7]
  simp only [encode, toNat_append_eq, BitVec.extractLsb'_toNat, Nat.shiftRight_zero,
    BitVec.toNat_ofNat]
  omega

/-! ### The operation that an instruction shows -/

/-- The immediate as it is written: a shift by a constant is written with its amount. -/
def writtenImm? (inst : Instruction) : Option Int :=
  match inst.format with
  | .shift => inst.shamt?.map fun n => (n.toNat : Int)
  | _ => inst.imm?

/-- The operation of a mnemonic with the operands of the instruction. -/
def operation (inst : Instruction) (m : Mnemonic) : Operation :=
  ⟨m, inst.rd?, inst.rs1?, inst.rs2?, inst.writtenImm?, none⟩

theorem format_imm (op : ImmOp) (rd rs1 : Reg) (imm : BitVec 12) :
    (i op.opcode op.funct3 rd rs1 imm).format = .i :=
  format_eq_of_codes (m := .imm op) rfl rfl

theorem format_shift (op : ShiftOp) (rd rs1 : Reg) (imm : BitVec 12) :
    (i .opImm op.funct3 rd rs1 imm).format = .shift :=
  format_eq_of_codes (m := .shift op) rfl rfl

theorem format_upper (op : UpperOp) (rd : Reg) (imm : BitVec 20) : (u op rd imm).format = .u :=
  format_eq_of_codes (m := .upper op) rfl rfl

theorem shamt?_shift (op : ShiftOp) (rd rs1 : Reg) (imm : BitVec 12) :
    (i .opImm op.funct3 rd rs1 imm).shamt? = some (imm.extractLsb' 0 5) := by
  unfold shamt?
  rw [format_shift]

theorem effectiveFunct7?_shift (op : ShiftOp) (rd rs1 : Reg) (imm : BitVec 12) :
    (i .opImm op.funct3 rd rs1 imm).effectiveFunct7? = some (imm.extractLsb' 5 7) := by
  unfold effectiveFunct7?
  rw [format_shift]

theorem operation_of_format {inst : Instruction} {f : Format} (hformat : inst.format = f)
    (h : f ≠ .shift) (m : Mnemonic) :
    inst.operation m = ⟨m, inst.rd?, inst.rs1?, inst.rs2?, inst.imm?, none⟩ := by
  unfold operation writtenImm?
  split
  · next hshift => exact absurd (hformat.symm.trans hshift) h
  · rfl

theorem operation_r (funct3 : BitVec 3) (funct7 : BitVec 7) (rd rs1 rs2 : Reg) (m : Mnemonic) :
    (r funct3 funct7 rd rs1 rs2).operation m =
      ⟨m, some rd, some rs1, some rs2, none, none⟩ := rfl

theorem operation_imm (op : ImmOp) (rd rs1 : Reg) (imm : BitVec 12) (m : Mnemonic) :
    (i op.opcode op.funct3 rd rs1 imm).operation m =
      ⟨m, some rd, some rs1, none, some imm.toInt, none⟩ := by
  rw [operation_of_format (format_imm op rd rs1 imm) nofun, imm?_i]
  rfl

theorem operation_shift (op : ShiftOp) (rd rs1 : Reg) (imm : BitVec 12) (m : Mnemonic) :
    (i .opImm op.funct3 rd rs1 imm).operation m =
      ⟨m, some rd, some rs1, none, some ((imm.extractLsb' 0 5).toNat : Int), none⟩ := by
  unfold operation writtenImm?
  rw [format_shift, shamt?_shift]
  rfl

theorem operation_s (funct3 : BitVec 3) (rs1 rs2 : Reg) (imm : BitVec 12) (m : Mnemonic) :
    (s funct3 rs1 rs2 imm).operation m =
      ⟨m, none, some rs1, some rs2, some imm.toInt, none⟩ := by
  rw [operation_of_format (f := .s) rfl nofun, imm?_s]
  rfl

theorem operation_b (funct3 : BitVec 3) (rs1 rs2 : Reg) (offset : BitVec 12) (m : Mnemonic) :
    (b funct3 rs1 rs2 offset).operation m =
      ⟨m, none, some rs1, some rs2, some (offset ++ 0#1).toInt, none⟩ := by
  rw [operation_of_format (f := .b) rfl nofun, imm?_b]
  rfl

theorem operation_u (op : UpperOp) (rd : Reg) (imm : BitVec 20) (m : Mnemonic) :
    (u op rd imm).operation m =
      ⟨m, some rd, none, none, some ((imm ++ 0#12).toNat : Int), none⟩ := by
  rw [operation_of_format (format_upper op rd imm) nofun, imm?_u]
  rfl

theorem operation_j (rd : Reg) (offset : BitVec 20) (m : Mnemonic) :
    (j rd offset).operation m =
      ⟨m, some rd, none, none, some (offset ++ 0#1).toInt, none⟩ := by
  rw [operation_of_format (f := .j) rfl nofun, imm?_j]
  rfl

/-! ### From a word to the operation and back -/

/-- The operation that an instruction shows can be built. What it builds is the instruction itself
or, where the `funct7` code is ignored, the instruction with that code zero. -/
theorem exists_builds_operation {inst : Instruction} {m : Mnemonic} (h : inst.describe = .ok m) :
    ∃ k, Operation.Builds (inst.operation m) (.concrete k) ∧
      k.encode = if m.ignoresFunct7 then Word.clearFunct7 inst.encode else inst.encode := by
  obtain ⟨hopcode, hfunct3, hfunct7⟩ := describe_eq_ok_iff_codes.mp h
  cases hasForm_of_codes hopcode hfunct3 with
  | reg op funct7 rd rs1 rs2 =>
    refine ⟨r op.funct3 op.funct7 rd rs1 rs2, ?_, ?_⟩
    · rw [operation_r]
      exact .reg op rd rs1 rs2
    · by_cases hignored : (Mnemonic.reg op).ignoresFunct7 = true
      · have hzero : some op.funct7 = some 0#7 := Mnemonic.funct7?_of_ignoresFunct7 hignored
        rw [if_pos hignored, clearFunct7_encode_r, Option.some.inj hzero]
      · have hsame : some funct7 = some op.funct7 := hfunct7.resolve_right hignored
        rw [if_neg hignored, Option.some.inj hsame]
  | imm op rd rs1 imm =>
    refine ⟨i op.opcode op.funct3 rd rs1 imm, ?_, rfl⟩
    rw [operation_imm]
    exact .imm op rd rs1 imm
  | shift op rd rs1 imm =>
    refine ⟨i .opImm op.funct3 rd rs1 (op.funct7 ++ imm.extractLsb' 0 5), ?_, ?_⟩
    · rw [operation_shift]
      exact .shift op rd rs1 _
    · by_cases hignored : (Mnemonic.shift op).ignoresFunct7 = true
      · have hzero : some op.funct7 = some 0#7 := Mnemonic.funct7?_of_ignoresFunct7 hignored
        rw [if_pos hignored, clearFunct7_encode_i, Option.some.inj hzero]
      · have hsame := hfunct7.resolve_right hignored
        rw [effectiveFunct7?_shift] at hsame
        have hcode : imm.extractLsb' 5 7 = op.funct7 := Option.some.inj hsame
        rw [if_neg hignored, ← hcode,
          BitVec.extractLsb'_append_extractLsb'_eq_extractLsb' (by decide)]
        exact congrArg _ (congrArg _ BitVec.extractLsb'_eq_self)
  | store op rs1 rs2 imm =>
    refine ⟨s op.funct3 rs1 rs2 imm, ?_, rfl⟩
    rw [operation_s]
    exact .store op rs1 rs2 imm
  | branch op rs1 rs2 offset =>
    refine ⟨b op.funct3 rs1 rs2 offset, ?_, rfl⟩
    rw [operation_b]
    exact .branch op rs1 rs2 offset
  | upper op rd imm =>
    refine ⟨u op rd imm, ?_, rfl⟩
    rw [operation_u]
    exact .upper op rd imm
  | jal rd offset =>
    refine ⟨j rd offset, ?_, rfl⟩
    rw [operation_j]
    exact .jump rd offset

/-- Disassembling a word and assembling the result again gives the word back. Only a `funct7` code
that the mnemonic ignores is not kept: its bits become zero. -/
theorem reassemble_disassembled {w : Word} {inst : Instruction} {m : Mnemonic}
    (hdecode : Word.decode? w = some inst) (hdescribe : inst.describe = .ok m) :
    inst.format = m.format ∧
      ∃ k, (inst.operation m).build = .ok (.concrete k) ∧
        if m.ignoresFunct7 then
          k.encode = Word.clearFunct7 w ∧ (k.encode = w ↔ Word.funct7 w = 0#7)
        else k.encode = w := by
  obtain ⟨hopcode, hfunct3, -⟩ := describe_eq_ok_iff_codes.mp hdescribe
  obtain ⟨k, hbuilds, hencode⟩ := exists_builds_operation hdescribe
  refine ⟨format_eq_of_codes hopcode hfunct3, k, Operation.build_eq_ok_iff.mpr hbuilds, ?_⟩
  rw [encode_of_decode? hdecode] at hencode
  by_cases hignored : m.ignoresFunct7 = true
  · rw [if_pos hignored] at hencode ⊢
    rw [hencode]
    exact ⟨rfl, Word.clearFunct7_eq_self_iff w⟩
  · rw [if_neg hignored] at hencode ⊢
    exact hencode

/-- A left shift with a `funct7` code that is not zero loses the code. -/
theorem reassemble_sll :
    Word.decode? 0x41079733#32 = some (r 0b001 0b0100000 14 15 16) ∧
    (r 0b001 0b0100000 14 15 16).describe = .ok (.reg .sll) ∧
    ∃ k, ((r 0b001 0b0100000 14 15 16).operation (.reg .sll)).build = .ok (.concrete k) ∧
      k.encode = 0x01079733#32 := by
  have hdecode : Word.decode? 0x41079733#32 = some (r 0b001 0b0100000 14 15 16) := by rfl
  have hdescribe : (r 0b001 0b0100000 14 15 16).describe = .ok (.reg .sll) := by rfl
  obtain ⟨-, k, hbuild, hencode, -⟩ := reassemble_disassembled hdecode hdescribe
  exact ⟨hdecode, hdescribe, k, hbuild, hencode⟩

/-! ### From an operation to the word and back -/

theorem operation_of_builds {st : Operation} {inst : Instruction}
    (h : Operation.Builds st (.concrete inst)) : inst.operation st.op = st := by
  cases h with
  | reg op rd rs1 rs2 => rw [operation_r]
  | imm op rd rs1 p => rw [operation_imm]
  | shift op rd rs1 p =>
    rw [operation_shift, BitVec.extractLsb'_append_eq_right]
  | store op rs1 rs2 p => rw [operation_s]
  | branch op rs1 rs2 p => rw [operation_b]
  | upper op rd p => rw [operation_u]
  | jump rd p => rw [operation_j]

theorem effectiveFunct7?_of_builds {st : Operation} {inst : Instruction}
    (h : Operation.Builds st (.concrete inst)) : inst.effectiveFunct7? = st.op.funct7? := by
  cases h with
  | imm op rd rs1 p =>
    have hformat := format_imm op rd rs1 p
    apply effectiveFunct7?_eq_none
    · simp [hformat]
    · simp [hformat]
  | shift op rd rs1 p =>
    rw [effectiveFunct7?_shift, BitVec.extractLsb'_append_eq_of_le (by decide)]
    exact congrArg some BitVec.extractLsb'_eq_self
  | upper op => cases op <;> rfl
  | _ => rfl

theorem describe_of_builds {st : Operation} {inst : Instruction}
    (h : Operation.Builds st (.concrete inst)) : inst.describe = .ok st.op := by
  rw [describe_eq_ok_iff_codes, effectiveFunct7?_of_builds h]
  cases h <;> exact ⟨rfl, rfl, .inl rfl⟩

/-- Assembling an operation and disassembling its word again gives the operation back: the
mnemonic, all registers, and the immediate in the form in which the mnemonic takes it. -/
theorem disassemble_assembled {st : Operation} {inst : Instruction}
    (h : st.build = .ok (.concrete inst)) :
    ∃ k, Word.decode? inst.encode = some k ∧ k.describe = .ok st.op ∧
      k.rd? = st.rd ∧ k.rs1? = st.rs1 ∧ k.rs2? = st.rs2 ∧
      match st.op with
      | .shift op =>
        k.shamt?.map (fun n => (n.toNat : Int)) = st.imm ∧ k.effectiveFunct7? = some op.funct7
      | .reg _ => k.imm? = none ∧ st.imm = none
      | _ => k.imm? = st.imm := by
  have hbuilds := Operation.build_eq_ok_iff.mp h
  have hshown := operation_of_builds hbuilds
  have hfunct7 := effectiveFunct7?_of_builds hbuilds
  refine ⟨inst, decode?_encode inst, describe_of_builds hbuilds, congrArg Operation.rd hshown,
    congrArg Operation.rs1 hshown, congrArg Operation.rs2 hshown, ?_⟩
  cases hbuilds with
  | reg op rd rs1 rs2 => exact ⟨rfl, rfl⟩
  | shift op rd rs1 p =>
    refine ⟨?_, hfunct7⟩
    rw [shamt?_shift, BitVec.extractLsb'_append_eq_right]
    rfl
  | _ => simp

/-- The largest arithmetic shift: its `funct7` code and its amount share the immediate. -/
theorem disassemble_srai :
    Operation.build ⟨.shift .srai, some 7, some 24, none, some 31, none⟩ =
      .ok (.concrete (i .opImm 0b101 7 24 0x41f)) ∧
    ∃ k, Word.decode? (i .opImm 0b101 7 24 0x41f).encode = some k ∧
      k.describe = .ok (.shift .srai) ∧ k.shamt?.map (fun n => (n.toNat : Int)) = some 31 ∧
      k.effectiveFunct7? = some 0b0100000 := by
  have hbuild : Operation.build ⟨.shift .srai, some 7, some 24, none, some 31, none⟩ =
      .ok (.concrete (i .opImm 0b101 7 24 0x41f)) := by rfl
  obtain ⟨k, hdecode, hdescribe, -, -, -, hshamt, hfunct7⟩ := disassemble_assembled hbuild
  exact ⟨hbuild, k, hdecode, hdescribe, hshamt, hfunct7⟩

end Instruction

end Rv32Asm

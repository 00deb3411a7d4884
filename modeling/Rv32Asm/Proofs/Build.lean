import Mathlib
import Rv32Asm.Statement.Basic
import Rv32Asm.Proofs.Operands

/-!
# Building operations

The operations that can be built, each with the entry that it stands for (`Builds`): one case for
every format, and one more for a branch and a jump to a label. An immediate is given by the bits
that the instruction keeps of it, so every case of the relation is an operation that is accepted.
-/

namespace Rv32Asm

namespace Operation

/-! ### Operands -/

theorem need_eq_ok_iff {α : Type} {st : Operation} {operand : Operand} {x : Option α} {a : α} :
    st.need operand x = .ok a ↔ x = some a := by
  cases x with
  | none => simp [need]
  | some b => simp [need]

theorem forbid_eq_ok_iff {α : Type} {st : Operation} {operand : Operand} {x : Option α}
    {u : Unit} : st.forbid operand x = .ok u ↔ x = none := by
  cases x with
  | none => simp [forbid]
  | some b => simp [forbid]

theorem unsignedWord_eq_ok_iff {width : Nat} {value : Int} {w : Word} :
    unsignedWord width value = .ok w ↔ (w.toNat : Int) = value := by
  unfold unsignedWord
  constructor
  · intro h
    split at h
    · next heq =>
      cases h
      exact heq
    · cases h
  · intro h
    subst h
    rw [BitVec.ofInt_natCast, BitVec.ofNat_toNat, BitVec.setWidth_eq, if_pos rfl]

theorem concrete_eq_ok_iff {result : Except FieldError Instruction} {e : Entry} :
    concrete result = .ok e ↔ ∃ inst, result = .ok inst ∧ .concrete inst = e := by
  cases result with
  | error cause => simp [concrete]
  | ok inst => simp [concrete]

/-! ### Operations that are accepted -/

/-- The entry that an operation stands for. -/
inductive Builds : Operation → Entry → Prop
  | reg (op : RegOp) (rd rs1 rs2 : Reg) :
    Builds ⟨.reg op, some rd, some rs1, some rs2, none, none⟩
      (.concrete (.r op.funct3 op.funct7 rd rs1 rs2))
  | imm (op : ImmOp) (rd rs1 : Reg) (p : BitVec 12) :
    Builds ⟨.imm op, some rd, some rs1, none, some p.toInt, none⟩
      (.concrete (.i op.opcode op.funct3 rd rs1 p))
  | shift (op : ShiftOp) (rd rs1 : Reg) (p : BitVec 5) :
    Builds ⟨.shift op, some rd, some rs1, none, some (p.toNat : Int), none⟩
      (.concrete (.i .opImm op.funct3 rd rs1 (op.funct7 ++ p)))
  | store (op : StoreOp) (rs1 rs2 : Reg) (p : BitVec 12) :
    Builds ⟨.store op, none, some rs1, some rs2, some p.toInt, none⟩
      (.concrete (.s op.funct3 rs1 rs2 p))
  | branch (op : BranchOp) (rs1 rs2 : Reg) (p : BitVec 12) :
    Builds ⟨.branch op, none, some rs1, some rs2, some (p ++ 0#1).toInt, none⟩
      (.concrete (.b op.funct3 rs1 rs2 p))
  | branchTo (op : BranchOp) (rs1 rs2 : Reg) (label : String) :
    Builds ⟨.branch op, none, some rs1, some rs2, none, some label⟩
      (.pending (.branch (.branch op) rs1 rs2 label))
  | upper (op : UpperOp) (rd : Reg) (p : BitVec 20) :
    Builds ⟨.upper op, some rd, none, none, some ((p ++ 0#12).toNat : Int), none⟩
      (.concrete (.u op rd p))
  | jump (rd : Reg) (p : BitVec 20) :
    Builds ⟨.jal, some rd, none, none, some (p ++ 0#1).toInt, none⟩ (.concrete (.j rd p))
  | jumpTo (rd : Reg) (label : String) :
    Builds ⟨.jal, some rd, none, none, none, some label⟩ (.pending (.jump rd label))

/-- What is accepted stands for what is built. -/
theorem builds_of_build {st : Operation} {e : Entry} (h : st.build = .ok e) : Builds st e := by
  obtain ⟨op, rd, rs1, rs2, imm, target⟩ := st
  cases op with
  | reg op =>
    simp only [build, bind_eq_ok, forbid_eq_ok_iff, need_eq_ok_iff] at h
    obtain ⟨_, rfl, _, rfl, rd, rfl, rs1, rfl, rs2, rfl, h⟩ := h
    cases h
    exact .reg op rd rs1 rs2
  | imm op =>
    simp only [build, bind_eq_ok, forbid_eq_ok_iff, need_eq_ok_iff, concrete_eq_ok_iff,
      Instruction.ofImm_eq_ok_iff] at h
    obtain ⟨_, rfl, _, rfl, rd, rfl, rs1, rfl, _, rfl, _, ⟨p, rfl, rfl⟩, rfl⟩ := h
    exact .imm op rd rs1 p
  | shift op =>
    simp only [build, bind_eq_ok, forbid_eq_ok_iff, need_eq_ok_iff, mapError_eq_ok,
      unsignedWord_eq_ok_iff, concrete_eq_ok_iff, Instruction.ofShift_eq_ok_iff] at h
    obtain ⟨_, rfl, _, rfl, _, rfl, w, rfl, rd, rfl, rs1, rfl, _, ⟨p, hp, rfl⟩, rfl⟩ := h
    rw [← hp]
    exact .shift op rd rs1 p
  | store op =>
    simp only [build, bind_eq_ok, forbid_eq_ok_iff, need_eq_ok_iff, concrete_eq_ok_iff,
      Instruction.ofStore_eq_ok_iff] at h
    obtain ⟨_, rfl, _, rfl, rs1, rfl, rs2, rfl, _, rfl, _, ⟨p, rfl, rfl⟩, rfl⟩ := h
    exact .store op rs1 rs2 p
  | branch op =>
    simp only [build, bind_eq_ok, forbid_eq_ok_iff, need_eq_ok_iff] at h
    obtain ⟨_, rfl, rs1, rfl, rs2, rfl, h⟩ := h
    cases target with
    | some label =>
      simp only [bind_eq_ok, forbid_eq_ok_iff] at h
      obtain ⟨_, rfl, h⟩ := h
      cases h
      exact .branchTo op rs1 rs2 label
    | none =>
      simp only [bind_eq_ok, need_eq_ok_iff, concrete_eq_ok_iff] at h
      obtain ⟨_, rfl, _, hmade, rfl⟩ := h
      obtain ⟨q, hq, rfl⟩ := Instruction.ofBranch_eq_ok_iff.mp hmade
      rw [← exists_packed_offset_iff.mp ⟨q, hq, rfl⟩]
      exact .branch op rs1 rs2 _
  | upper op =>
    simp only [build, bind_eq_ok, forbid_eq_ok_iff, need_eq_ok_iff, mapError_eq_ok,
      unsignedWord_eq_ok_iff, concrete_eq_ok_iff, Instruction.ofUpper_eq_ok_iff] at h
    obtain ⟨_, rfl, _, rfl, _, rfl, _, rfl, w, rfl, rd, rfl, _, ⟨haligned, rfl⟩, rfl⟩ := h
    have hw := upper_eq_iff.mp ⟨haligned, rfl⟩
    nth_rewrite 1 [hw]
    exact .upper op rd _
  | jal =>
    simp only [build, bind_eq_ok, forbid_eq_ok_iff, need_eq_ok_iff] at h
    obtain ⟨_, rfl, _, rfl, rd, rfl, h⟩ := h
    cases target with
    | some label =>
      simp only [bind_eq_ok, forbid_eq_ok_iff] at h
      obtain ⟨_, rfl, h⟩ := h
      cases h
      exact .jumpTo rd label
    | none =>
      simp only [bind_eq_ok, need_eq_ok_iff, concrete_eq_ok_iff] at h
      obtain ⟨_, rfl, _, hmade, rfl⟩ := h
      obtain ⟨q, hq, rfl⟩ := Instruction.ofJump_eq_ok_iff.mp hmade
      rw [← exists_packed_offset_iff.mp ⟨q, hq, rfl⟩]
      exact .jump rd _

/-- Every case of the relation is accepted. -/
theorem build_of_builds {st : Operation} {e : Entry} (h : Builds st e) : st.build = .ok e := by
  -- once the operands are known to be there, what is left is to make the instruction
  cases h with
  | reg op rd rs1 rs2 => rfl
  | imm op rd rs1 p =>
    change concrete (Instruction.ofImm op rd rs1 p.toInt) = _
    exact concrete_eq_ok_iff.mpr ⟨_, Instruction.ofImm_eq_ok_iff.mpr ⟨p, rfl, rfl⟩, rfl⟩
  | shift op rd rs1 p =>
    have hvalue : (p.setWidth 32).toNat = p.toNat := BitVec.toNat_setWidth_of_le (by decide)
    have hword : unsignedWord 5 p.toNat = .ok (p.setWidth 32) := by
      rw [unsignedWord_eq_ok_iff, hvalue]
    change ((unsignedWord 5 p.toNat).mapError StatementError.field >>= fun w =>
      concrete (Instruction.ofShift op rd rs1 w.toNat)) = _
    rw [bind_eq_ok]
    refine ⟨_, mapError_eq_ok.mpr hword, ?_⟩
    exact concrete_eq_ok_iff.mpr ⟨_, Instruction.ofShift_eq_ok_iff.mpr ⟨p, hvalue.symm, rfl⟩, rfl⟩
  | store op rs1 rs2 p =>
    change concrete (Instruction.ofStore op rs1 rs2 p.toInt) = _
    exact concrete_eq_ok_iff.mpr ⟨_, Instruction.ofStore_eq_ok_iff.mpr ⟨p, rfl, rfl⟩, rfl⟩
  | branch op rs1 rs2 p =>
    obtain ⟨q, hq, rfl⟩ := exists_packed_offset_iff.mpr (rfl : (p ++ 0#1).toInt = _)
    exact concrete_eq_ok_iff.mpr ⟨_, Instruction.ofBranch_eq_ok_iff.mpr ⟨q, hq, rfl⟩, rfl⟩
  | branchTo op rs1 rs2 label => rfl
  | upper op rd p =>
    obtain ⟨haligned, hp⟩ := upper_eq_iff.mpr (rfl : p ++ 0#12 = _)
    have hword : unsignedWord 32 (p ++ 0#12).toNat = .ok (p ++ 0#12) :=
      unsignedWord_eq_ok_iff.mpr rfl
    change ((unsignedWord 32 (p ++ 0#12).toNat).mapError StatementError.field >>= fun w =>
      concrete (Instruction.ofUpper op rd w)) = _
    rw [bind_eq_ok]
    refine ⟨_, mapError_eq_ok.mpr hword, ?_⟩
    exact concrete_eq_ok_iff.mpr
      ⟨_, Instruction.ofUpper_eq_ok_iff.mpr ⟨haligned, congrArg _ hp⟩, rfl⟩
  | jump rd p =>
    obtain ⟨q, hq, rfl⟩ := exists_packed_offset_iff.mpr (rfl : (p ++ 0#1).toInt = _)
    exact concrete_eq_ok_iff.mpr ⟨_, Instruction.ofJump_eq_ok_iff.mpr ⟨q, hq, rfl⟩, rfl⟩
  | jumpTo rd label => rfl

theorem build_eq_ok_iff {st : Operation} {e : Entry} : st.build = .ok e ↔ Builds st e :=
  ⟨builds_of_build, build_of_builds⟩

end Operation

end Rv32Asm

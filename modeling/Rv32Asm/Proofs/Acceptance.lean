import Mathlib
import Rv32Asm.Proofs.Build
import Rv32Asm.Proofs.WordLayout

/-!
# Which operations are accepted

An operation is well formed if the operands that are given are exactly those of its format, where a
branch or a jump takes either an immediate or a label, and the immediate is in the range of the
format. These are the operations that can be built. One with a label becomes the reference that it
names, and any other the instruction that its mnemonic makes from the same operands given as plain
numbers (`Construction`).
-/

namespace Rv32Asm

namespace Format

/-- The sets of operands that an operation of the format can be given. -/
def operandSets : Format → List (List Operand)
  | r => [[.rd, .rs1, .rs2]]
  | i | shift => [[.rd, .rs1, .imm]]
  | s => [[.rs1, .rs2, .imm]]
  | b => [[.rs1, .rs2, .imm], [.rs1, .rs2, .target]]
  | u => [[.rd, .imm]]
  | j => [[.rd, .imm], [.rd, .target]]

/-- The immediates that an operation of the format can be given. -/
def Admits : Format → Int → Prop
  | r, _ => False
  | i, value | s, value => -2048 ≤ value ∧ value ≤ 2047
  | shift, value => 0 ≤ value ∧ value ≤ 31
  | b, value => value % 2 = 0 ∧ -4096 ≤ value ∧ value ≤ 4094
  | u, value => value % 4096 = 0 ∧ 0 ≤ value ∧ value < 2 ^ 32
  | j, value => value % 2 = 0 ∧ -2 ^ 20 ≤ value ∧ value ≤ 2 ^ 20 - 2

end Format

namespace Operation

/-- The operand is given. -/
def Has (st : Operation) : Operand → Prop
  | .rd => st.rd.isSome
  | .rs1 => st.rs1.isSome
  | .rs2 => st.rs2.isSome
  | .imm => st.imm.isSome
  | .target => st.target.isSome

/-- The operation has the operands of its format and no others, and its immediate is in range. -/
structure WellFormed (st : Operation) : Prop where
  operands : ∃ set ∈ st.op.format.operandSets, ∀ operand, st.Has operand ↔ operand ∈ set
  immediate : ∀ value, st.imm = some value → st.op.format.Admits value

/-- The reference to a label that the operation names. -/
def reference? (st : Operation) : Option Reference :=
  match st.op with
  | .jal => do return .jump (← st.rd) (← st.target)
  | m => do return .branch m (← st.rs1) (← st.rs2) (← st.target)

/-- The mnemonic with its operands as plain numbers. -/
def construction? (st : Operation) : Option Construction :=
  match st.op with
  | .reg op => do return .reg op (← st.rd).toNat (← st.rs1).toNat (← st.rs2).toNat
  | .imm op => do return .imm op (← st.rd).toNat (← st.rs1).toNat (← st.imm)
  | .shift op => do return .shift op (← st.rd).toNat (← st.rs1).toNat (← st.imm).toNat
  | .store op => do return .store op (← st.rs1).toNat (← st.rs2).toNat (← st.imm)
  | .branch op => do return .branch op (← st.rs1).toNat (← st.rs2).toNat (← st.imm)
  | .upper op => do return .upper op (← st.rd).toNat (BitVec.ofInt 32 (← st.imm))
  | .jal => do return .jal (← st.rd).toNat (← st.imm)

end Operation

theorem Reg.ofNat_toNat (r : Reg) : Reg.ofNat r.toNat = .ok r := Reg.ofNat_eq_ok_iff.mpr rfl

/-! ### Immediates in range -/

namespace Format

theorem admits_i_iff {value : Int} : i.Admits value ↔ ∃ p : BitVec 12, p.toInt = value := by
  rw [exists_toInt_eq_iff (by decide)]
  unfold Admits
  omega

theorem admits_shift_iff {value : Int} :
    shift.Admits value ↔ ∃ p : BitVec 5, (p.toNat : Int) = value := by
  unfold Admits
  constructor
  · intro h
    refine ⟨BitVec.ofNat 5 value.toNat, ?_⟩
    rw [BitVec.toNat_ofNat]
    omega
  · rintro ⟨p, rfl⟩
    have hlt := p.isLt
    omega

theorem exists_append_zero_iff {n : Nat} {value : Int} :
    (∃ p : BitVec n, (p ++ 0#1).toInt = value) ↔
      value % 2 = 0 ∧ -2 ^ n ≤ value ∧ value < 2 ^ n := by
  have hrange : (∃ q : BitVec (n + 1), q.toInt = value) ↔ -2 ^ n ≤ value ∧ value < 2 ^ n :=
    exists_toInt_eq_iff (Nat.succ_pos n)
  rw [← hrange]
  constructor
  · rintro ⟨p, hp⟩
    obtain ⟨q, ⟨heven, hq⟩, -⟩ := exists_packed_offset_iff.mpr hp
    exact ⟨heven, q, hq⟩
  · rintro ⟨heven, q, hq⟩
    exact ⟨_, exists_packed_offset_iff.mp ⟨q, ⟨heven, hq⟩, rfl⟩⟩

theorem admits_b_iff {value : Int} :
    b.Admits value ↔ ∃ p : BitVec 12, (p ++ 0#1).toInt = value := by
  rw [exists_append_zero_iff]
  unfold Admits
  omega

theorem admits_j_iff {value : Int} :
    j.Admits value ↔ ∃ p : BitVec 20, (p ++ 0#1).toInt = value := by
  rw [exists_append_zero_iff]
  unfold Admits
  omega

theorem admits_u_iff {value : Int} :
    u.Admits value ↔ ∃ p : BitVec 20, ((p ++ 0#12).toNat : Int) = value := by
  unfold Admits
  constructor
  · intro h
    refine ⟨BitVec.ofNat 20 (value.toNat / 4096), ?_⟩
    rw [toNat_append_eq, BitVec.toNat_ofNat, BitVec.toNat_ofNat]
    omega
  · rintro ⟨p, rfl⟩
    have hlt := p.isLt
    rw [toNat_append_eq, BitVec.toNat_ofNat]
    omega

end Format

/-! ### Operations that are built -/

namespace Operation

variable {st : Operation} {e : Entry}

theorem operands_of_builds (h : Builds st e) :
    ∃ set ∈ st.op.format.operandSets, ∀ operand, st.Has operand ↔ operand ∈ set := by
  cases h with
  | branchTo op rs1 rs2 label =>
    refine ⟨[.rs1, .rs2, .target], .tail _ (.head _), ?_⟩
    intro operand
    cases operand <;> simp [Has]
  | jumpTo rd label =>
    refine ⟨[.rd, .target], .tail _ (.head _), ?_⟩
    intro operand
    cases operand <;> simp [Has]
  | _ =>
    -- the first set of the format has the immediate, where there is one
    refine ⟨_, .head _, ?_⟩
    intro operand
    cases operand <;> simp [Has]

theorem admits_of_builds (h : Builds st e) {value : Int} (hvalue : st.imm = some value) :
    st.op.format.Admits value := by
  cases h with
  | reg op rd rs1 rs2 => cases hvalue
  | imm op rd rs1 p => exact Format.admits_i_iff.mpr ⟨p, Option.some.inj hvalue⟩
  | shift op rd rs1 p => exact Format.admits_shift_iff.mpr ⟨p, Option.some.inj hvalue⟩
  | store op rs1 rs2 p => exact Format.admits_i_iff.mpr ⟨p, Option.some.inj hvalue⟩
  | branch op rs1 rs2 p => exact Format.admits_b_iff.mpr ⟨p, Option.some.inj hvalue⟩
  | branchTo op rs1 rs2 label => cases hvalue
  | upper op rd p => exact Format.admits_u_iff.mpr ⟨p, Option.some.inj hvalue⟩
  | jump rd p => exact Format.admits_j_iff.mpr ⟨p, Option.some.inj hvalue⟩
  | jumpTo rd label => cases hvalue

/-- A set of operands says of each operand whether it is there. -/
theorem operands_of_set {set : List Operand} (h : ∀ operand, st.Has operand ↔ operand ∈ set) :
    (if .rd ∈ set then ∃ r, st.rd = some r else st.rd = none) ∧
      (if .rs1 ∈ set then ∃ r, st.rs1 = some r else st.rs1 = none) ∧
      (if .rs2 ∈ set then ∃ r, st.rs2 = some r else st.rs2 = none) ∧
      (if .imm ∈ set then ∃ value, st.imm = some value else st.imm = none) ∧
      if .target ∈ set then ∃ label, st.target = some label else st.target = none := by
  have hgiven : ∀ {α : Type} {x : Option α} {operand : Operand},
      (x.isSome = true ↔ operand ∈ set) →
        if operand ∈ set then ∃ a, x = some a else x = none := by
    intro α x operand hx
    split
    · next hmem => exact Option.isSome_iff_exists.mp (hx.mpr hmem)
    · next hmem => exact Option.not_isSome_iff_eq_none.mp (hx.not.mpr hmem)
  exact ⟨hgiven (h .rd), hgiven (h .rs1), hgiven (h .rs2), hgiven (h .imm), hgiven (h .target)⟩

theorem exists_builds_of_wellFormed (h : st.WellFormed) : ∃ e, Builds st e := by
  obtain ⟨op, rd, rs1, rs2, imm, target⟩ := st
  obtain ⟨⟨set, hset, hoperands⟩, himmediate⟩ := h
  replace hoperands := operands_of_set hoperands
  cases op with
  | reg op =>
    obtain rfl := List.mem_singleton.mp hset
    obtain ⟨⟨rd, rfl⟩, ⟨rs1, rfl⟩, ⟨rs2, rfl⟩, rfl, rfl⟩ := hoperands
    exact ⟨_, .reg op rd rs1 rs2⟩
  | imm op =>
    obtain rfl := List.mem_singleton.mp hset
    obtain ⟨⟨rd, rfl⟩, ⟨rs1, rfl⟩, rfl, ⟨value, rfl⟩, rfl⟩ := hoperands
    obtain ⟨p, rfl⟩ := Format.admits_i_iff.mp (himmediate value rfl)
    exact ⟨_, .imm op rd rs1 p⟩
  | shift op =>
    obtain rfl := List.mem_singleton.mp hset
    obtain ⟨⟨rd, rfl⟩, ⟨rs1, rfl⟩, rfl, ⟨value, rfl⟩, rfl⟩ := hoperands
    obtain ⟨p, rfl⟩ := Format.admits_shift_iff.mp (himmediate value rfl)
    exact ⟨_, .shift op rd rs1 p⟩
  | store op =>
    obtain rfl := List.mem_singleton.mp hset
    obtain ⟨rfl, ⟨rs1, rfl⟩, ⟨rs2, rfl⟩, ⟨value, rfl⟩, rfl⟩ := hoperands
    obtain ⟨p, rfl⟩ := Format.admits_i_iff.mp (himmediate value rfl)
    exact ⟨_, .store op rs1 rs2 p⟩
  | branch op =>
    rcases List.mem_pair.mp hset with rfl | rfl
    · obtain ⟨rfl, ⟨rs1, rfl⟩, ⟨rs2, rfl⟩, ⟨value, rfl⟩, rfl⟩ := hoperands
      obtain ⟨p, rfl⟩ := Format.admits_b_iff.mp (himmediate value rfl)
      exact ⟨_, .branch op rs1 rs2 p⟩
    · obtain ⟨rfl, ⟨rs1, rfl⟩, ⟨rs2, rfl⟩, rfl, ⟨label, rfl⟩⟩ := hoperands
      exact ⟨_, .branchTo op rs1 rs2 label⟩
  | upper op =>
    obtain rfl := List.mem_singleton.mp hset
    obtain ⟨⟨rd, rfl⟩, rfl, rfl, ⟨value, rfl⟩, rfl⟩ := hoperands
    obtain ⟨p, rfl⟩ := Format.admits_u_iff.mp (himmediate value rfl)
    exact ⟨_, .upper op rd p⟩
  | jal =>
    rcases List.mem_pair.mp hset with rfl | rfl
    · obtain ⟨⟨rd, rfl⟩, rfl, rfl, ⟨value, rfl⟩, rfl⟩ := hoperands
      obtain ⟨p, rfl⟩ := Format.admits_j_iff.mp (himmediate value rfl)
      exact ⟨_, .jump rd p⟩
    · obtain ⟨⟨rd, rfl⟩, rfl, rfl, rfl, ⟨label, rfl⟩⟩ := hoperands
      exact ⟨_, .jumpTo rd label⟩

/-- The operations that can be built are those that are well formed. -/
theorem exists_build_iff : (∃ e, st.build = .ok e) ↔ st.WellFormed := by
  constructor
  · rintro ⟨e, he⟩
    have hbuilds := build_eq_ok_iff.mp he
    exact ⟨operands_of_builds hbuilds, fun _ => admits_of_builds hbuilds⟩
  · intro h
    obtain ⟨e, he⟩ := exists_builds_of_wellFormed h
    exact ⟨e, build_eq_ok_iff.mpr he⟩

/-! ### What is built -/

/-- The entry that is built for an operation with a label is the reference that it names. -/
theorem eq_pending_of_builds {label : String} (h : Builds st e) (htarget : st.target = some label) :
    ∃ ref, st.reference? = some ref ∧ ref.label = label ∧ e = .pending ref := by
  cases h with
  | branchTo op rs1 rs2 label => exact ⟨_, rfl, Option.some.inj htarget, rfl⟩
  | jumpTo rd label => exact ⟨_, rfl, Option.some.inj htarget, rfl⟩
  | _ => cases htarget

/-- The entry that is built for an operation without a label is the instruction that the mnemonic
makes from the operands as plain numbers. -/
theorem eq_concrete_of_builds (h : Builds st e) (htarget : st.target = none) :
    ∃ c inst, st.construction? = some c ∧ c.mnemonic = st.op ∧ c.instruction = .ok inst ∧
      e = .concrete inst := by
  -- the numbers of registers are accepted, so only the immediate is left to be checked
  cases h with
  | reg op rd rs1 rs2 =>
    refine ⟨_, _, rfl, rfl, ?_, rfl⟩
    simp only [Construction.instruction, Instruction.reg, Reg.ofNat_toNat]
    rfl
  | imm op rd rs1 p =>
    refine ⟨_, _, rfl, rfl, ?_, rfl⟩
    simp only [Construction.instruction, Instruction.imm, Reg.ofNat_toNat]
    exact Instruction.ofImm_eq_ok_iff.mpr ⟨p, rfl, rfl⟩
  | shift op rd rs1 p =>
    refine ⟨_, _, rfl, rfl, ?_, rfl⟩
    simp only [Construction.instruction, Instruction.shift, Reg.ofNat_toNat]
    exact Instruction.ofShift_eq_ok_iff.mpr ⟨p, rfl, rfl⟩
  | store op rs1 rs2 p =>
    refine ⟨_, _, rfl, rfl, ?_, rfl⟩
    simp only [Construction.instruction, Instruction.store, Reg.ofNat_toNat]
    exact Instruction.ofStore_eq_ok_iff.mpr ⟨p, rfl, rfl⟩
  | branch op rs1 rs2 p =>
    refine ⟨_, _, rfl, rfl, ?_, rfl⟩
    obtain ⟨q, hq, rfl⟩ := exists_packed_offset_iff.mpr (rfl : (p ++ 0#1).toInt = _)
    simp only [Construction.instruction, Instruction.branch, Reg.ofNat_toNat]
    exact Instruction.ofBranch_eq_ok_iff.mpr ⟨q, hq, rfl⟩
  | branchTo op rs1 rs2 label => cases htarget
  | upper op rd p =>
    refine ⟨_, _, rfl, rfl, ?_, rfl⟩
    obtain ⟨haligned, hp⟩ := upper_eq_iff.mpr (rfl : p ++ 0#12 = _)
    have hword : BitVec.ofInt 32 ((p ++ 0#12).toNat : Int) = p ++ 0#12 := by
      rw [BitVec.ofInt_natCast, BitVec.ofNat_toNat, BitVec.setWidth_eq]
    simp only [Construction.instruction, Instruction.upper, Reg.ofNat_toNat, hword]
    exact Instruction.ofUpper_eq_ok_iff.mpr ⟨haligned, congrArg _ hp⟩
  | jump rd p =>
    refine ⟨_, _, rfl, rfl, ?_, rfl⟩
    obtain ⟨q, hq, rfl⟩ := exists_packed_offset_iff.mpr (rfl : (p ++ 0#1).toInt = _)
    simp only [Construction.instruction, Instruction.jal, Reg.ofNat_toNat]
    exact Instruction.ofJump_eq_ok_iff.mpr ⟨q, hq, rfl⟩
  | jumpTo rd label => cases htarget

/-- Building accepts exactly the operations that are well formed. With a label the entry is the
reference that the operation names, and otherwise the instruction that the mnemonic makes from the
same operands. -/
theorem build_accepts_wellFormed (st : Operation) :
    ((∃ e, st.build = .ok e) ↔ st.WellFormed) ∧
      ∀ e, st.build = .ok e →
        match st.target with
        | some label => ∃ ref, st.reference? = some ref ∧ ref.label = label ∧ e = .pending ref
        | none => ∃ c inst, st.construction? = some c ∧ c.mnemonic = st.op ∧
            c.instruction = .ok inst ∧ e = .concrete inst := by
  refine ⟨exists_build_iff, ?_⟩
  intro e he
  have hbuilds := build_eq_ok_iff.mp he
  cases htarget : st.target with
  | some label => exact eq_pending_of_builds hbuilds htarget
  | none => exact eq_concrete_of_builds hbuilds htarget

end Operation

end Rv32Asm

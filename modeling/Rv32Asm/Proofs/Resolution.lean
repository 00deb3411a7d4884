import Mathlib
import Rv32Asm.Assembly.Label
import Rv32Asm.Proofs.Operands

/-!
# Resolving references

A reference to a label that is in the table becomes an instruction exactly if the offset to the
label is even and in reach, and the instruction then reaches over that offset. Otherwise the first
objection to the offset is the error.
-/

namespace Rv32Asm

theorem Mnemonic.format_eq_b_iff {m : Mnemonic} : m.format = .b ↔ ∃ op, m = .branch op := by
  cases m <;> simp [format]

@[simp] theorem Entry.resolve_pending (labels : LabelTable) (pc : Word) (ref : Reference) :
    (pending ref).resolve labels pc = ref.resolve labels pc := rfl

namespace Reference

/-- The reference can stand for an instruction that reaches over `offset`: its mnemonic is one of a
branch or a jump, and the offset is in the range of the field. -/
def InReach (ref : Reference) (offset : Int) : Prop :=
  match ref with
  | branch mnemonic _ _ _ => mnemonic.format = .b ∧ -2 ^ 12 ≤ offset ∧ offset < 2 ^ 12
  | jump _ _ => -2 ^ 20 ≤ offset ∧ offset < 2 ^ 20

/-- The instruction is the one that the reference names, over the given offset. -/
def IsResolved (ref : Reference) (offset : Int) (inst : Instruction) : Prop :=
  match ref with
  | branch mnemonic rs1 rs2 _ =>
    inst.format = .b ∧ inst.describe = .ok mnemonic ∧ inst.rs1? = some rs1 ∧ inst.rs2? = some rs2 ∧
      inst.imm? = some offset
  | jump rd _ =>
    inst.format = .j ∧ inst.describe = .ok .jal ∧ inst.rd? = some rd ∧ inst.imm? = some offset

theorem resolve_of_get?_eq_none {labels : LabelTable} {pc : Word} {ref : Reference}
    (h : labels.get? ref.label = none) :
    ref.resolve labels pc = .error (.undefinedLabel ref.label pc) := by
  unfold resolve
  rw [h]

theorem resolve_branch {labels : LabelTable} {pc target : Word} {op : BranchOp} {rs1 rs2 : Reg}
    {label : String} (h : labels.get? label = some target) :
    (branch (.branch op) rs1 rs2 label).resolve labels pc =
      (Instruction.ofBranch op rs1 rs2 (target.toNat - pc.toNat)).mapError (.encoding pc) := by
  unfold resolve
  have hlabel : labels.get? (branch (.branch op) rs1 rs2 label).label = some target := h
  rw [hlabel]

theorem resolve_jump {labels : LabelTable} {pc target : Word} {rd : Reg} {label : String}
    (h : labels.get? label = some target) :
    (jump rd label).resolve labels pc =
      (Instruction.ofJump rd (target.toNat - pc.toNat)).mapError (.encoding pc) := by
  unfold resolve
  have hlabel : labels.get? (jump rd label).label = some target := h
  rw [hlabel]

theorem resolve_notABranch {labels : LabelTable} {pc target : Word} {mnemonic : Mnemonic}
    {rs1 rs2 : Reg} {label : String} (h : labels.get? label = some target)
    (hformat : mnemonic.format ≠ .b) :
    (branch mnemonic rs1 rs2 label).resolve labels pc = .error (.notABranch mnemonic pc) := by
  unfold resolve
  have hlabel : labels.get? (branch mnemonic rs1 rs2 label).label = some target := h
  rw [hlabel]
  cases mnemonic with
  | branch op => exact absurd rfl hformat
  | _ => rfl

/-- A reference to a label of the table becomes an instruction exactly if the label lies an even
offset away that is in reach. -/
theorem exists_resolve_iff {labels : LabelTable} {pc target : Word} {ref : Reference}
    (h : labels.get? ref.label = some target) :
    (∃ inst, ref.resolve labels pc = .ok inst) ↔
      ((target.toNat : Int) - pc.toNat) % 2 = 0 ∧ ref.InReach (target.toNat - pc.toNat) := by
  cases ref with
  | branch mnemonic rs1 rs2 label =>
    replace h : labels.get? label = some target := h
    by_cases hformat : mnemonic.format = .b
    · obtain ⟨op, rfl⟩ := Mnemonic.format_eq_b_iff.mp hformat
      simp only [resolve_branch h, mapError_eq_ok, Instruction.exists_ofBranch_iff, InReach,
        Mnemonic.format, true_and]
    · simp only [resolve_notABranch h hformat, InReach, hformat, false_and, and_false,
        reduceCtorEq, exists_false]
  | jump rd label =>
    replace h : labels.get? label = some target := h
    simp only [resolve_jump h, mapError_eq_ok, Instruction.exists_ofJump_iff, InReach]

/-! ### What is refused -/

/-- Why a reference at `pc` cannot reach over `offset`. A mnemonic that is not a branch is objected
to first, then an odd offset, then an offset that is out of range. -/
def objection? (ref : Reference) (pc : Word) (offset : Int) : Option AssemblyError :=
  match ref with
  | branch mnemonic _ _ _ =>
    if mnemonic.format = .b then (offsetFault? 13 offset).map (.encoding pc)
    else some (.notABranch mnemonic pc)
  | jump _ _ => (offsetFault? 21 offset).map (.encoding pc)

theorem objection?_eq_none_iff {ref : Reference} {pc : Word} {offset : Int} :
    ref.objection? pc offset = none ↔ offset % 2 = 0 ∧ ref.InReach offset := by
  cases ref with
  | branch mnemonic rs1 rs2 label =>
    by_cases hformat : mnemonic.format = .b
    · simp [objection?, InReach, hformat, offsetFault?_eq_none_iff]
    · simp [objection?, InReach, hformat]
  | jump rd label => simp [objection?, InReach, offsetFault?_eq_none_iff]

theorem resolve_of_objection? {labels : LabelTable} {pc target : Word} {ref : Reference}
    {e : AssemblyError} (h : labels.get? ref.label = some target)
    (hobjection : ref.objection? pc (target.toNat - pc.toNat) = some e) :
    ref.resolve labels pc = .error e := by
  cases ref with
  | branch mnemonic rs1 rs2 label =>
    replace h : labels.get? label = some target := h
    by_cases hformat : mnemonic.format = .b
    · obtain ⟨op, rfl⟩ := Mnemonic.format_eq_b_iff.mp hformat
      rw [objection?, if_pos hformat] at hobjection
      obtain ⟨fault, hfault, rfl⟩ := Option.map_eq_some_iff.mp hobjection
      rw [resolve_branch h,
        Instruction.ofBranch_of_packOffset (packOffset_of_offsetFault? (by decide) hfault)]
      rfl
    · rw [objection?, if_neg hformat] at hobjection
      cases hobjection
      exact resolve_notABranch h hformat
  | jump rd label =>
    replace h : labels.get? label = some target := h
    obtain ⟨fault, hfault, rfl⟩ := Option.map_eq_some_iff.mp hobjection
    rw [resolve_jump h,
      Instruction.ofJump_of_packOffset (packOffset_of_offsetFault? (by decide) hfault)]
    rfl

/-- The error of a reference at `pc` that cannot reach over `offset`. -/
def refusal (ref : Reference) (pc : Word) (offset : Int) : AssemblyError :=
  match ref with
  | branch mnemonic _ _ _ =>
    if mnemonic.format = .b then .encoding pc (.signedRange offset 13)
    else .notABranch mnemonic pc
  | jump _ _ => .encoding pc (.signedRange offset 21)

/-- An offset that cannot be encoded is always refused for its range. -/
theorem exists_signedRange_of_refusal {ref : Reference} {pc pc' : Word} {offset : Int}
    {cause : FieldError} (h : ref.refusal pc offset = .encoding pc' cause) :
    ∃ width, (width = 13 ∨ width = 21) ∧ cause = .signedRange offset width := by
  cases ref with
  | branch mnemonic rs1 rs2 label =>
    unfold refusal at h
    by_cases hformat : mnemonic.format = .b
    · simp only [if_pos hformat] at h
      cases h
      exact ⟨13, .inl rfl, rfl⟩
    · simp only [if_neg hformat] at h
      cases h
  | jump rd label =>
    cases h
    exact ⟨21, .inr rfl, rfl⟩

theorem objection?_of_not_inReach {ref : Reference} {offset : Int} (heven : offset % 2 = 0)
    (hreach : ¬ ref.InReach offset) (pc : Word) :
    ref.objection? pc offset = some (ref.refusal pc offset) := by
  cases ref with
  | branch mnemonic rs1 rs2 label =>
    by_cases hformat : mnemonic.format = .b
    · have hrange : ¬ (-2 ^ 12 ≤ offset ∧ offset < 2 ^ 12) := fun h => hreach ⟨hformat, h⟩
      rw [objection?, refusal, if_pos hformat, if_pos hformat,
        offsetFault?_of_out_of_range heven hrange, Option.map_some]
    · rw [objection?, refusal, if_neg hformat, if_neg hformat]
  | jump rd label =>
    have hrange : ¬ (-2 ^ 20 ≤ offset ∧ offset < 2 ^ 20) := hreach
    rw [objection?, refusal, offsetFault?_of_out_of_range heven hrange, Option.map_some]

/-- A reference to a label of the table, an even offset away, is refused exactly if the label is out
of reach. -/
theorem resolve_eq_error_iff {labels : LabelTable} {pc target : Word} {ref : Reference}
    {e : AssemblyError} (h : labels.get? ref.label = some target)
    (heven : ((target.toNat : Int) - pc.toNat) % 2 = 0) :
    ref.resolve labels pc = .error e ↔
      ¬ ref.InReach (target.toNat - pc.toNat) ∧ e = ref.refusal pc (target.toNat - pc.toNat) := by
  by_cases hreach : ref.InReach (target.toNat - pc.toNat)
  · obtain ⟨inst, hinst⟩ := (exists_resolve_iff h).mpr ⟨heven, hreach⟩
    simp [hinst, hreach]
  · have hrefused := resolve_of_objection? h (objection?_of_not_inReach heven hreach pc)
    simp [hrefused, hreach, eq_comm]

/-! ### Every outcome -/

/-- What a reference becomes has the mnemonic and registers of the reference and reaches over the
offset to the label. -/
theorem isResolved_of_resolve {labels : LabelTable} {pc target : Word} {ref : Reference}
    {inst : Instruction} (h : labels.get? ref.label = some target)
    (hresolve : ref.resolve labels pc = .ok inst) :
    ref.IsResolved (target.toNat - pc.toNat) inst := by
  cases ref with
  | branch mnemonic rs1 rs2 label =>
    replace h : labels.get? label = some target := h
    by_cases hformat : mnemonic.format = .b
    · obtain ⟨op, rfl⟩ := Mnemonic.format_eq_b_iff.mp hformat
      rw [resolve_branch h, mapError_eq_ok] at hresolve
      have himm := Instruction.imm?_of_ofBranch hresolve
      have hdescribe := Instruction.describe_of_ofBranch hresolve
      obtain ⟨p, -, rfl⟩ := Instruction.ofBranch_eq_ok_iff.mp hresolve
      exact ⟨rfl, hdescribe, rfl, rfl, himm⟩
    · rw [resolve_notABranch h hformat] at hresolve
      cases hresolve
  | jump rd label =>
    replace h : labels.get? label = some target := h
    rw [resolve_jump h, mapError_eq_ok] at hresolve
    have himm := Instruction.imm?_of_ofJump hresolve
    have hdescribe := Instruction.describe_of_ofJump hresolve
    obtain ⟨p, -, rfl⟩ := Instruction.ofJump_eq_ok_iff.mp hresolve
    exact ⟨rfl, hdescribe, rfl, himm⟩

/-- What becomes of any reference at any address, with any table. A label that is not in the table
is an error. Otherwise the offset to the label is an exact difference that does not wrap: the first
objection to it is the error, and if there is none, the reference becomes the instruction with its
mnemonic and its registers that reaches over the offset and is read back from its machine word. -/
theorem resolve_outcome (labels : LabelTable) (pc : Word) (ref : Reference) :
    match labels.get? ref.label with
    | none => ref.resolve labels pc = .error (.undefinedLabel ref.label pc)
    | some target =>
      match ref.objection? pc ((target.toNat : Int) - pc.toNat) with
      | some e => ref.resolve labels pc = .error e
      | none =>
        ∃ inst, ref.resolve labels pc = .ok inst ∧ Word.decode? inst.encode = some inst ∧
          ref.IsResolved ((target.toNat : Int) - pc.toNat) inst := by
  split
  · next hlabel => exact resolve_of_get?_eq_none hlabel
  · next target hlabel =>
    split
    · next e hobjection => exact resolve_of_objection? hlabel hobjection
    · next hnone =>
      obtain ⟨inst, hinst⟩ := (exists_resolve_iff hlabel).mpr (objection?_eq_none_iff.mp hnone)
      exact ⟨inst, hinst, inst.decode?_encode, isResolved_of_resolve hlabel hinst⟩

/-- A label at the other end of the address space is out of reach: the offset does not wrap. -/
example : (branch (.branch .beq) 1 2 "start").resolve ⟨[("start", 0)]⟩ 0xfffffffc#32 =
    .error (.encoding 0xfffffffc#32 (.signedRange (-0xfffffffc) 13)) := by decide

/-- The mnemonic is looked at before the offset, and an odd offset before its range. -/
example : (branch (.reg .add) 1 2 "odd").resolve ⟨[("odd", 0x20001)]⟩ 0 =
      .error (.notABranch (.reg .add) 0) ∧
    (jump 1 "odd").resolve ⟨[("odd", 0x2000001)]⟩ 0 =
      .error (.encoding 0 (.misaligned 0x2000001 2)) := by decide

end Reference

end Rv32Asm

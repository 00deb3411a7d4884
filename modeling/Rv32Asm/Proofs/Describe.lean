import Mathlib
import Rv32Asm.Proofs.Operands

/-!
# The mnemonic of an instruction

An instruction belongs to a mnemonic exactly if it has the mnemonic's opcode and `funct3` code and,
where that is looked at, its `funct7` code. The code is looked at where another mnemonic has the
same opcode and `funct3` code; the mnemonics that have a `funct7` code and no such sibling are those
that `ignoresFunct7` lists.
-/

namespace Rv32Asm

theorem ImmOpcode.opcode_injective : Function.Injective ImmOpcode.opcode := by
  intro a b h
  cases a <;> cases b <;> simp_all [opcode]

theorem UpperOp.opcode_injective : Function.Injective UpperOp.opcode := by
  intro a b h
  cases a <;> cases b <;> simp_all [opcode]

namespace Mnemonic

/-! ### Codes -/

/-- The mnemonic has a `funct7` code, and an instruction belongs to it whatever its own code. -/
def ignoresFunct7 : Mnemonic → Bool
  | reg .sll | reg .slt | reg .sltu | reg .xor | reg .or | reg .and | shift .slli => true
  | _ => false

theorem matchesCodes_iff {opcode : Opcode} {funct3 : Option Nat} {m : Mnemonic} :
    matchesCodes opcode funct3 m = true ↔
      m.opcode = opcode ∧ (m.funct3? = none ∨ m.funct3?.map BitVec.toNat = funct3) := by
  simp [matchesCodes]

theorem mem_all (m : Mnemonic) : m ∈ (Named.all : List Mnemonic) := by
  cases m with
  | reg op => cases op <;> decide
  | imm op => cases op <;> decide
  | shift op => cases op <;> decide
  | store op => cases op <;> decide
  | branch op => cases op <;> decide
  | upper op => cases op <;> decide
  | jal => decide

/-- What is found has the codes that were looked for. -/
theorem matchesCodes_of_lookup {opcode : Opcode} {funct3 funct7 : Option Nat} {m : Mnemonic}
    (h : lookup opcode funct3 funct7 = some m) : matchesCodes opcode funct3 m = true := by
  suffices hmem : m ∈ (Named.all : List Mnemonic).filter (matchesCodes opcode funct3) from
    (List.mem_filter.mp hmem).2
  unfold lookup at h
  split at h
  · cases h
  · next found hfound =>
    cases h
    rw [hfound]
    exact List.mem_singleton_self m
  · exact List.mem_of_find?_eq_some h

/-- Between mnemonics that agree on the other codes the `funct7` code decides. -/
theorem funct7?_of_lookup {opcode : Opcode} {funct3 funct7 : Option Nat} {m sibling : Mnemonic}
    (h : lookup opcode funct3 funct7 = some m)
    (hsibling : matchesCodes opcode funct3 sibling = true) (hne : sibling ≠ m) :
    m.funct7?.map BitVec.toNat = funct7 := by
  have hmem : sibling ∈ (Named.all : List Mnemonic).filter (matchesCodes opcode funct3) :=
    List.mem_filter.mpr ⟨mem_all sibling, hsibling⟩
  unfold lookup at h
  split at h
  · cases h
  · next found hfound =>
    cases h
    rw [hfound] at hmem
    exact absurd (List.mem_singleton.mp hmem) hne
  · simpa using List.find?_some h

theorem lookup_codes (m : Mnemonic) :
    lookup m.opcode (m.funct3?.map BitVec.toNat) (m.funct7?.map BitVec.toNat) = some m := by
  cases m with
  | reg op => cases op <;> rfl
  | imm op => cases op <;> rfl
  | shift op => cases op <;> rfl
  | store op => cases op <;> rfl
  | branch op => cases op <;> rfl
  | upper op => cases op <;> rfl
  | jal => rfl

theorem lookup_of_ignoresFunct7 {m : Mnemonic} (h : m.ignoresFunct7 = true)
    (funct7 : Option Nat) : lookup m.opcode (m.funct3?.map BitVec.toNat) funct7 = some m := by
  cases m with
  | reg op =>
    cases op with
    | add | sub | srl | sra => cases h
    | _ => rfl
  | shift op =>
    cases op with
    | slli => rfl
    | _ => cases h
  | _ => cases h

theorem funct7?_of_ignoresFunct7 {m : Mnemonic} (h : m.ignoresFunct7 = true) :
    m.funct7? = some 0#7 := by
  cases m with
  | reg op =>
    cases op with
    | sub | sra => cases h
    | _ => rfl
  | shift op =>
    cases op with
    | srai => cases h
    | _ => rfl
  | _ => cases h

/-- Where the `funct7` code is not ignored, another mnemonic differs in that code alone. -/
theorem exists_sibling {m : Mnemonic} {funct7 : BitVec 7} (hfunct7 : m.funct7? = some funct7)
    (h : m.ignoresFunct7 = false) :
    ∃ sibling, sibling ≠ m ∧ sibling.opcode = m.opcode ∧ sibling.funct3? = m.funct3? := by
  cases m with
  | reg op =>
    cases op with
    | add => exact ⟨reg .sub, by decide, rfl, rfl⟩
    | sub => exact ⟨reg .add, by decide, rfl, rfl⟩
    | srl => exact ⟨reg .sra, by decide, rfl, rfl⟩
    | sra => exact ⟨reg .srl, by decide, rfl, rfl⟩
    | _ => cases h
  | shift op =>
    cases op with
    | srli => exact ⟨shift .srai, by decide, rfl, rfl⟩
    | srai => exact ⟨shift .srli, by decide, rfl, rfl⟩
    | slli => cases h
  | _ => cases hfunct7

theorem format_of_codes (m : Mnemonic) :
    Format.of m.opcode (m.funct3?.map BitVec.toNat) = m.format := by
  cases m with
  | reg op => rfl
  | imm op => cases op <;> rfl
  | shift op => cases op <;> rfl
  | store op => rfl
  | branch op => rfl
  | upper op => cases op <;> rfl
  | jal => rfl

theorem funct7?_eq_none_iff {m : Mnemonic} :
    m.funct7? = none ↔ m.format ≠ .r ∧ m.format ≠ .shift := by
  cases m <;> simp [funct7?, format]

end Mnemonic

namespace Instruction

/-! ### Instructions of a mnemonic -/

theorem format_eq_of_codes {inst : Instruction} {m : Mnemonic} (hopcode : inst.opcode = m.opcode)
    (hfunct3 : inst.funct3? = m.funct3?) : inst.format = m.format := by
  rw [← Mnemonic.format_of_codes m, ← hopcode, ← hfunct3]
  rfl

theorem effectiveFunct7?_eq_none {inst : Instruction} (hr : inst.format ≠ .r)
    (hshift : inst.format ≠ .shift) : inst.effectiveFunct7? = none := by
  have hfunct7 : inst.funct7? = none := by
    cases inst with
    | r => exact absurd rfl hr
    | _ => rfl
  unfold effectiveFunct7?
  split
  · next hformat => exact absurd hformat hshift
  · exact hfunct7

/-- If a mnemonic has no `funct3` code, the instructions with its opcode have none either. -/
theorem funct3?_eq_none_of_opcode {inst : Instruction} {m : Mnemonic}
    (hopcode : m.opcode = inst.opcode) (hfunct3 : m.funct3? = none) : inst.funct3? = none := by
  cases m with
  | upper op =>
    cases inst with
    | u => rfl
    | j => rfl
    | i opcode => cases op <;> cases opcode <;> cases hopcode
    | _ => cases op <;> cases hopcode
  | jal =>
    cases inst with
    | u => rfl
    | j => rfl
    | i opcode => cases opcode <;> cases hopcode
    | _ => cases hopcode
  | _ => cases hfunct3

/-- An instruction belongs to a mnemonic exactly if it has the mnemonic's codes, a `funct7` code
that is ignored excepted. -/
theorem describe_eq_ok_iff_codes {inst : Instruction} {m : Mnemonic} :
    inst.describe = .ok m ↔
      inst.opcode = m.opcode ∧ inst.funct3? = m.funct3? ∧
        (inst.effectiveFunct7? = m.funct7? ∨ m.ignoresFunct7 = true) := by
  rw [describe_eq_ok_iff]
  constructor
  · intro h
    obtain ⟨hopcode, hcode⟩ := Mnemonic.matchesCodes_iff.mp (Mnemonic.matchesCodes_of_lookup h)
    have hfunct3 : inst.funct3? = m.funct3? := by
      rcases hcode with hnone | hsame
      · rw [hnone]
        exact funct3?_eq_none_of_opcode hopcode hnone
      · exact (Option.map_injective BitVec.toNat_injective hsame).symm
    refine ⟨hopcode.symm, hfunct3, ?_⟩
    by_cases hignored : m.ignoresFunct7 = true
    · exact .inr hignored
    · left
      cases hfunct7 : m.funct7? with
      | none =>
        have hformat := format_eq_of_codes hopcode.symm hfunct3
        obtain ⟨hr, hshift⟩ := Mnemonic.funct7?_eq_none_iff.mp hfunct7
        rw [← hformat] at hr hshift
        exact effectiveFunct7?_eq_none hr hshift
      | some funct7 =>
        -- the code decides against the sibling
        obtain ⟨sibling, hne, hsop, hsf3⟩ :=
          Mnemonic.exists_sibling hfunct7 (by simpa using hignored)
        have hmatches : Mnemonic.matchesCodes inst.opcode (inst.funct3?.map BitVec.toNat)
            sibling = true := by
          rw [Mnemonic.matchesCodes_iff, hsop, hsf3, hfunct3]
          exact ⟨hopcode, .inr rfl⟩
        have hsame := Mnemonic.funct7?_of_lookup h hmatches hne
        rw [← hfunct7]
        exact (Option.map_injective BitVec.toNat_injective hsame).symm
  · intro h
    obtain ⟨hopcode, hfunct3, hfunct7 | hignored⟩ := h
    · rw [hopcode, hfunct3, hfunct7]
      exact Mnemonic.lookup_codes m
    · rw [hopcode, hfunct3]
      exact Mnemonic.lookup_of_ignoresFunct7 hignored _

/-- The instructions with the opcode and the `funct3` code of a mnemonic, format by format. -/
inductive HasForm : Mnemonic → Instruction → Prop
  | reg (op : RegOp) (funct7 : BitVec 7) (rd rs1 rs2 : Reg) :
    HasForm (.reg op) (r op.funct3 funct7 rd rs1 rs2)
  | imm (op : ImmOp) (rd rs1 : Reg) (imm : BitVec 12) :
    HasForm (.imm op) (i op.opcode op.funct3 rd rs1 imm)
  | shift (op : ShiftOp) (rd rs1 : Reg) (imm : BitVec 12) :
    HasForm (.shift op) (i .opImm op.funct3 rd rs1 imm)
  | store (op : StoreOp) (rs1 rs2 : Reg) (imm : BitVec 12) :
    HasForm (.store op) (s op.funct3 rs1 rs2 imm)
  | branch (op : BranchOp) (rs1 rs2 : Reg) (offset : BitVec 12) :
    HasForm (.branch op) (b op.funct3 rs1 rs2 offset)
  | upper (op : UpperOp) (rd : Reg) (imm : BitVec 20) : HasForm (.upper op) (u op rd imm)
  | jal (rd : Reg) (offset : BitVec 20) : HasForm .jal (j rd offset)

theorem hasForm_of_codes {inst : Instruction} {m : Mnemonic} (hopcode : inst.opcode = m.opcode)
    (hfunct3 : inst.funct3? = m.funct3?) : HasForm m inst := by
  cases m with
  | reg op =>
    cases inst with
    | r funct3 funct7 rd rs1 rs2 =>
      cases hfunct3
      exact .reg op funct7 rd rs1 rs2
    | i opcode => cases opcode <;> cases hopcode
    | u op => cases op <;> cases hopcode
    | _ => cases hopcode
  | imm op =>
    cases inst with
    | i opcode funct3 rd rs1 imm =>
      obtain rfl := ImmOpcode.opcode_injective hopcode
      cases hfunct3
      exact .imm op rd rs1 imm
    | u op' => cases op' <;> cases op <;> cases hopcode
    | _ => cases op <;> cases hopcode
  | shift op =>
    cases inst with
    | i opcode funct3 rd rs1 imm =>
      cases hfunct3
      cases opcode with
      | opImm => exact .shift op rd rs1 imm
      | _ => cases hopcode
    | u op => cases op <;> cases hopcode
    | _ => cases hopcode
  | store op =>
    cases inst with
    | s funct3 rs1 rs2 imm =>
      cases hfunct3
      exact .store op rs1 rs2 imm
    | i opcode => cases opcode <;> cases hopcode
    | u op => cases op <;> cases hopcode
    | _ => cases hopcode
  | branch op =>
    cases inst with
    | b funct3 rs1 rs2 offset =>
      cases hfunct3
      exact .branch op rs1 rs2 offset
    | i opcode => cases opcode <;> cases hopcode
    | u op => cases op <;> cases hopcode
    | _ => cases hopcode
  | upper op =>
    cases inst with
    | u op' rd imm =>
      obtain rfl := UpperOp.opcode_injective hopcode
      exact .upper op' rd imm
    | i opcode => cases op <;> cases opcode <;> cases hopcode
    | _ => cases op <;> cases hopcode
  | jal =>
    cases inst with
    | j rd offset => exact .jal rd offset
    | i opcode => cases opcode <;> cases hopcode
    | u op => cases op <;> cases hopcode
    | _ => cases hopcode

end Instruction

end Rv32Asm

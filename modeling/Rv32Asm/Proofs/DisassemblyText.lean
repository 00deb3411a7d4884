import Mathlib
import Rv32Asm.Proofs.Digits
import Rv32Asm.Proofs.Reassembly

/-!
# What assembly text tells

The text of an instruction that belongs to a mnemonic shows the operation that the instruction
stands for, and nothing else: two such instructions have the same text exactly if they show the same
operation (`text_eq_text_iff`). The columns of the mnemonic have a fixed width, the operands contain
no comma, and every register and number is written in one way only.
-/

namespace Rv32Asm

/-! ### Operands as texts -/

theorem Reg.name_injective : Function.Injective Reg.name := by
  intro r r' h
  unfold Reg.name at h
  have hdigits := String.ofList_inj.mp ((String.append_right_inj _).mp h)
  have hvalue := Text.valueOf_fixedDigits (b := 10) (by decide) (by decide) 2 r.toNat
  rw [hdigits, Text.valueOf_fixedDigits (by decide) (by decide)] at hvalue
  apply BitVec.eq_of_toNat_eq
  omega

theorem Reg.not_mem_name {c : Char} (hx : c ≠ 'x') (hc : ∀ d : Nat, d.digitChar ≠ c) (r : Reg) :
    c ∉ r.name.toList := by
  simp only [Reg.name, String.toList_append, String.toList_ofList, List.mem_append, not_or]
  exact ⟨by simp [hx], Text.not_mem_fixedDigits hc 10 2 r.toNat⟩

theorem immText_injective : Function.Injective immText := by
  have hhex : Function.Injective fun n => Text.hex n ++ "h" := by
    intro n n' h
    exact Text.hex_injective ((String.append_left_inj _).mp h)
  have himm : immText = fun z : Int =>
      if z < 0 then "-" ++ (Text.hex z.natAbs ++ "h") else Text.hex z.natAbs ++ "h" := by
    funext z
    rw [immText, String.append_assoc]
  rw [himm]
  exact Text.signed_injective hhex fun s n => Text.minus_append_ne_toDigits (by decide) s "h" n

/-- An immediate in assembly text: the amount of a shift is written in decimal and any other in
hexadecimal. -/
def Mnemonic.immOperand : Mnemonic → Int → String
  | .shift _ => Text.signedDecimal
  | _ => immText

theorem Mnemonic.immOperand_injective (m : Mnemonic) : Function.Injective m.immOperand := by
  cases m with
  | shift op => exact Text.signedDecimal_injective
  | _ => exact immText_injective

theorem not_mem_immText {c : Char} (hminus : c ≠ '-') (hh : c ≠ 'h')
    (hc : ∀ d : Nat, d.digitChar ≠ c) (value : Int) : c ∉ (immText value).toList := by
  have hhex := Text.not_mem_toDigits (b := 16) (by decide) hc value.natAbs
  simp only [immText, Text.hex]
  split <;> simp [hhex, hminus, hh]

theorem Mnemonic.comma_not_mem_immOperand (m : Mnemonic) (value : Int) :
    ',' ∉ (m.immOperand value).toList := by
  have hc : ∀ d : Nat, d.digitChar ≠ ',' := fun d => Nat.digitChar_ne ',' rfl
  cases m with
  | shift op =>
    have hdecimal := Text.not_mem_toDigits (b := 10) (by decide) hc value.natAbs
    simp only [immOperand, Text.signedDecimal, Text.decimal]
    split <;> simp [hdecimal]
  | _ => exact not_mem_immText (by decide) (by decide) hc value

/-- Texts of which it is known which are there can be told apart. -/
theorem eq_of_reduceOption_eq {α : Type} {xs xs' : List (Option α)}
    (hsome : xs.map Option.isSome = xs'.map Option.isSome)
    (h : xs.reduceOption = xs'.reduceOption) : xs = xs' := by
  induction xs generalizing xs' with
  | nil =>
    rw [List.map_nil] at hsome
    rw [List.map_eq_nil_iff.mp hsome.symm]
  | cons x xs ih =>
    cases xs' with
    | nil => simp at hsome
    | cons x' xs' =>
      obtain ⟨hx, hxs⟩ := List.cons.inj hsome
      cases x with
      | none =>
        cases x' with
        | none => rw [ih hxs h]
        | some a' => cases hx
      | some a =>
        cases x' with
        | none => cases hx
        | some a' =>
          obtain ⟨ha, hrest⟩ := List.cons.inj h
          rw [ha, ih hxs hrest]

namespace Operation

/-- The operands of an operation, each as a text if it is given. -/
def shown (st : Operation) : List (Option String) :=
  [st.rd.map Reg.name, st.rs1.map Reg.name, st.rs2.map Reg.name, st.imm.map st.op.immOperand]

/-- The operands of an operation in the order of assembly text. -/
def operandTexts (st : Operation) : List String := st.shown.reduceOption

/-- No operand contains a comma. -/
theorem comma_not_mem_operandTexts {st : Operation} {text : String} (h : text ∈ st.operandTexts) :
    ',' ∉ text.toList := by
  have hmem : some text ∈ st.shown := List.reduceOption_mem_iff.mp h
  have hreg : ∀ r : Option Reg, r.map Reg.name = some text → ',' ∉ text.toList := by
    intro r hr
    obtain ⟨r, -, rfl⟩ := Option.map_eq_some_iff.mp hr
    exact Reg.not_mem_name (by decide) (fun d => Nat.digitChar_ne ',' rfl) r
  simp only [shown, List.mem_cons, List.not_mem_nil, or_false] at hmem
  rcases hmem with hrd | hrs1 | hrs2 | himm
  · exact hreg _ hrd.symm
  · exact hreg _ hrs1.symm
  · exact hreg _ hrs2.symm
  · obtain ⟨value, -, rfl⟩ := Option.map_eq_some_iff.mp himm.symm
    exact Mnemonic.comma_not_mem_immOperand _ value

/-- Which operands the operations of a format show. -/
def shows : Format → List Bool
  | .r => [true, true, true, false]
  | .i | .shift => [true, true, false, true]
  | .s | .b => [false, true, true, true]
  | .u | .j => [true, false, false, true]

theorem isSome_shown_of_builds {st : Operation} {inst : Instruction}
    (h : Builds st (.concrete inst)) : st.shown.map Option.isSome = shows st.op.format := by
  cases h <;> rfl

theorem target_of_builds {st : Operation} {inst : Instruction}
    (h : Builds st (.concrete inst)) : st.target = none := by
  cases h <;> rfl

theorem length_operandTexts_eq {st st' : Operation} {inst inst' : Instruction}
    (h : Builds st (.concrete inst)) (h' : Builds st' (.concrete inst')) (hop : st.op = st'.op) :
    st.operandTexts.length = st'.operandTexts.length := by
  have hlength : ∀ {st : Operation} {inst : Instruction}, Builds st (.concrete inst) →
      st.operandTexts.length = (shows st.op.format).count true := by
    intro st inst h
    cases h <;> rfl
  rw [hlength h, hlength h', hop]

/-- The operands of one mnemonic are read off their texts. -/
theorem eq_of_operandTexts_eq {st st' : Operation} {inst inst' : Instruction}
    (h : Builds st (.concrete inst)) (h' : Builds st' (.concrete inst')) (hop : st.op = st'.op)
    (htexts : st.operandTexts = st'.operandTexts) : st = st' := by
  have hsome : st.shown.map Option.isSome = st'.shown.map Option.isSome := by
    rw [isSome_shown_of_builds h, isSome_shown_of_builds h', hop]
  have hshown := eq_of_reduceOption_eq hsome htexts
  have htarget := (target_of_builds h).trans (target_of_builds h').symm
  obtain ⟨op, rd, rs1, rs2, imm, target⟩ := st
  obtain ⟨op', rd', rs1', rs2', imm', target'⟩ := st'
  obtain rfl : op = op' := hop
  obtain rfl : target = target' := htarget
  simp only [shown, List.cons.injEq, and_true] at hshown
  obtain ⟨hrd, hrs1, hrs2, himm⟩ := hshown
  rw [Option.map_injective Reg.name_injective hrd, Option.map_injective Reg.name_injective hrs1,
    Option.map_injective Reg.name_injective hrs2,
    Option.map_injective (Mnemonic.immOperand_injective op) himm]

end Operation

/-! ### The text of an instruction -/

/-- The first of two lists ends at the first comma. -/
theorem append_comma_inj {l l' rest rest' : List Char} (hl : ',' ∉ l) (hl' : ',' ∉ l')
    (h : l ++ ',' :: rest = l' ++ ',' :: rest') : l = l' ∧ rest = rest' := by
  induction l generalizing l' with
  | nil =>
    cases l' with
    | nil => exact ⟨rfl, (List.cons.inj h).2⟩
    | cons c' l' =>
      have hhead : ',' = c' := (List.cons.inj h).1
      exact absurd (hhead ▸ List.mem_cons_self) hl'
  | cons c l ih =>
    cases l' with
    | nil =>
      have hhead : c = ',' := (List.cons.inj h).1
      exact absurd (hhead ▸ List.mem_cons_self) hl
    | cons c' l' =>
      obtain ⟨hhead, htail⟩ := List.cons.inj h
      obtain ⟨hinit, hrest⟩ := ih (List.not_mem_of_not_mem_cons hl)
        (List.not_mem_of_not_mem_cons hl') htail
      exact ⟨by rw [hhead, hinit], hrest⟩

/-- Texts without commas can be read off their list. -/
theorem intercalate_comma_inj {ls ls' : List (List Char)} (hcomma : ∀ l ∈ ls, ',' ∉ l)
    (hcomma' : ∀ l ∈ ls', ',' ∉ l) (hlength : ls.length = ls'.length)
    (h : [',', ' '].intercalate ls = [',', ' '].intercalate ls') : ls = ls' := by
  induction ls generalizing ls' with
  | nil => exact (List.length_eq_zero_iff.mp hlength.symm).symm
  | cons l ls ih =>
    cases ls' with
    | nil => cases hlength
    | cons l' ls' =>
      have hl := hcomma l List.mem_cons_self
      have hl' := hcomma' l' List.mem_cons_self
      replace hlength : ls.length = ls'.length := Nat.succ.inj hlength
      cases ls with
      | nil =>
        obtain rfl : ls' = [] := List.length_eq_zero_iff.mp hlength.symm
        simpa using h
      | cons m ls =>
        cases ls' with
        | nil => cases hlength
        | cons m' ls' =>
          simp only [List.intercalate_cons_cons, List.append_assoc, List.cons_append] at h
          obtain ⟨hhead, htail⟩ := append_comma_inj hl hl' h
          have hrest := ih (fun x hx => hcomma x (List.mem_cons_of_mem _ hx))
            (fun x hx => hcomma' x (List.mem_cons_of_mem _ hx)) hlength (List.cons.inj htail).2
          rw [hhead, hrest]

/-- The columns of a mnemonic. -/
def Mnemonic.columns (m : Mnemonic) : String := Text.padRight 5 m.capitals

theorem Mnemonic.length_columns (m : Mnemonic) : m.columns.length = 5 := by
  have hall : ∀ m ∈ (Named.all : List Mnemonic), m.columns.length = 5 := by decide +kernel
  exact hall m (mem_all m)

theorem Mnemonic.columns_injective : Function.Injective Mnemonic.columns := by
  have hnodup : ((Named.all : List Mnemonic).map columns).Nodup := by decide +kernel
  intro m m' h
  exact List.inj_on_of_nodup_map hnodup (mem_all m) (mem_all m') h

namespace Instruction

variable {inst inst' : Instruction} {m m' : Mnemonic}

/-- The operands of an instruction are those of the operation that it shows. -/
theorem operandTexts_eq (h : inst.describe = .ok m) :
    inst.operandTexts = (inst.operation m).operandTexts := by
  obtain ⟨hopcode, hfunct3, -⟩ := describe_eq_ok_iff_codes.mp h
  cases hasForm_of_codes hopcode hfunct3 with
  | reg op funct7 rd rs1 rs2 => rfl
  | imm op rd rs1 imm =>
    rw [operation_imm, operandTexts, format_imm, imm?_i]
    rfl
  | shift op rd rs1 imm =>
    rw [operation_shift, operandTexts, format_shift, shamt?_shift]
    exact congrArg (fun amount => [rd.name, rs1.name, amount])
      (Text.signedDecimal_natCast (imm.extractLsb' 0 5).toNat).symm
  | store op rs1 rs2 imm =>
    rw [operation_s, operandTexts, imm?_s]
    rfl
  | branch op rs1 rs2 offset =>
    rw [operation_b, operandTexts, imm?_b]
    rfl
  | upper op rd imm =>
    rw [operation_u, operandTexts, format_upper, imm?_u]
    rfl
  | jal rd offset =>
    rw [operation_j, operandTexts, imm?_j]
    rfl

/-- The text of an instruction shows its mnemonic in columns and then the operands. -/
theorem toList_text (h : inst.describe = .ok m) :
    inst.text.toList = m.columns.toList ++
      (' ' :: [',', ' '].intercalate ((inst.operation m).operandTexts.map String.toList)) := by
  have hname : inst.nameText = m.capitals := by rw [nameText, h]
  rw [text, hname, operandTexts_eq h, String.toList_append, String.toList_append,
    String.toList_intercalate, List.append_assoc]
  rfl

/-- Two instructions have the same text exactly if they show the same operation. -/
theorem text_eq_text_iff (h : inst.describe = .ok m) (h' : inst'.describe = .ok m') :
    inst.text = inst'.text ↔ inst.operation m = inst'.operation m' := by
  constructor
  · intro htext
    have hlist := congrArg String.toList htext
    rw [toList_text h, toList_text h'] at hlist
    -- The columns are equally wide, so the texts fall apart at the same place.
    obtain ⟨hcolumns, hoperands⟩ := List.append_inj hlist
      (m.length_columns.trans m'.length_columns.symm)
    obtain rfl : m = m' := Mnemonic.columns_injective (String.toList_inj.mp hcolumns)
    obtain ⟨k, hbuilds, -⟩ := exists_builds_operation h
    obtain ⟨k', hbuilds', -⟩ := exists_builds_operation h'
    apply Operation.eq_of_operandTexts_eq hbuilds hbuilds' rfl
    have hlength := Operation.length_operandTexts_eq hbuilds hbuilds' rfl
    have hcomma : ∀ st : Operation, ∀ l ∈ st.operandTexts.map String.toList, ',' ∉ l := by
      intro st l hl
      obtain ⟨text, htext, rfl⟩ := List.mem_map.mp hl
      exact Operation.comma_not_mem_operandTexts htext
    have htexts := intercalate_comma_inj (hcomma _) (hcomma _) (by simpa using hlength)
      (List.cons.inj hoperands).2
    exact List.map_injective_iff.mpr (fun _ _ => String.toList_inj.mp) htexts
  · intro hoperation
    obtain rfl : m = m' := congrArg Operation.op hoperation
    apply String.toList_inj.mp
    rw [toList_text h, toList_text h', hoperation]

/-! ### What a word can be told by -/

/-- Two instructions of one mnemonic show the same operation exactly if their words agree, apart
from a `funct7` code that the mnemonic ignores. -/
theorem operation_eq_iff (h : inst.describe = .ok m) (h' : inst'.describe = .ok m) :
    inst.operation m = inst'.operation m ↔
      if m.ignoresFunct7 then Word.clearFunct7 inst.encode = Word.clearFunct7 inst'.encode
      else inst.encode = inst'.encode := by
  obtain ⟨k, hbuilds, hencode⟩ := exists_builds_operation h
  obtain ⟨k', hbuilds', hencode'⟩ := exists_builds_operation h'
  have hwords : inst.operation m = inst'.operation m ↔ k.encode = k'.encode := by
    constructor
    · intro hoperation
      rw [hoperation] at hbuilds
      have hbuild := Operation.build_eq_ok_iff.mpr hbuilds
      rw [Operation.build_eq_ok_iff.mpr hbuilds'] at hbuild
      rw [Entry.concrete.inj (Except.ok.inj hbuild)]
    · intro hk
      have hshown := operation_of_builds hbuilds
      have hshown' := operation_of_builds hbuilds'
      rw [← hshown, ← hshown', encode_injective hk]
      rfl
  rw [hwords, hencode, hencode']
  split
  · rfl
  · rfl

end Instruction

/-- Clearing the `funct7` code keeps the other bits and nothing else. -/
theorem Word.clearFunct7_eq_iff (w w' : Word) :
    clearFunct7 w = clearFunct7 w' ↔ ∀ k < 25, w.getLsbD k = w'.getLsbD k := by
  have hbit : ∀ (w : Word) (k : Nat),
      (clearFunct7 w).getLsbD k = (decide (k < 25) && w.getLsbD k) := by
    intro w k
    rw [← BitVec.testBit_toNat, toNat_clearFunct7, Nat.testBit_mod_two_pow, BitVec.testBit_toNat]
  constructor
  · intro h k hk
    have hk' := congrArg (fun v => BitVec.getLsbD v k) h
    simpa [hbit, hk] using hk'
  · intro h
    apply BitVec.eq_of_getLsbD_eq
    intro k _
    rw [hbit, hbit]
    by_cases hk : k < 25
    · rw [h k hk]
    · simp [hk]

namespace Instruction

/-- The text of a word that belongs to a mnemonic determines the word, with one exception: it does
not show bits 31 to 25 where the mnemonic ignores its `funct7` code. -/
theorem text_identifies_word {w w' : Word} {inst inst' : Instruction} {m m' : Mnemonic}
    (hdecode : Word.decode? w = some inst) (hdecode' : Word.decode? w' = some inst')
    (hdescribe : inst.describe = .ok m) (hdescribe' : inst'.describe = .ok m') :
    inst.text = inst'.text ↔
      w = w' ∨ m = m' ∧ m.ignoresFunct7 = true ∧ ∀ k < 25, w.getLsbD k = w'.getLsbD k := by
  rw [text_eq_text_iff hdescribe hdescribe', ← encode_of_decode? hdecode,
    ← encode_of_decode? hdecode']
  constructor
  · intro hoperation
    obtain rfl : m = m' := congrArg Operation.op hoperation
    have hwords := (operation_eq_iff hdescribe hdescribe').mp hoperation
    by_cases hignored : m.ignoresFunct7 = true
    · rw [if_pos hignored, Word.clearFunct7_eq_iff] at hwords
      exact .inr ⟨rfl, hignored, hwords⟩
    · rw [if_neg hignored] at hwords
      exact .inl hwords
  · rintro (hsame | ⟨rfl, hignored, hbits⟩)
    · obtain rfl : inst = inst' := encode_injective hsame
      obtain rfl : m = m' := Except.ok.inj (hdescribe.symm.trans hdescribe')
      rfl
    · apply (operation_eq_iff hdescribe hdescribe').mpr
      rw [if_pos hignored, Word.clearFunct7_eq_iff]
      exact hbits

/-- Two left shifts that differ in an ignored bit have the same text. -/
theorem text_sll_eq :
    Word.decode? 0x41079733#32 = some (r 0b001 0b0100000 14 15 16) ∧
    Word.decode? 0x01079733#32 = some (r 0b001 0b0000000 14 15 16) ∧
    (r 0b001 0b0100000 14 15 16).text = (r 0b001 0b0000000 14 15 16).text := by
  have hdecode : Word.decode? 0x41079733#32 = some (r 0b001 0b0100000 14 15 16) := by rfl
  have hdecode' : Word.decode? 0x01079733#32 = some (r 0b001 0b0000000 14 15 16) := by rfl
  have hdescribe : (r 0b001 0b0100000 14 15 16).describe = .ok (.reg .sll) := by rfl
  have hdescribe' : (r 0b001 0b0000000 14 15 16).describe = .ok (.reg .sll) := by rfl
  refine ⟨hdecode, hdecode', ?_⟩
  exact (text_identifies_word hdecode hdecode' hdescribe hdescribe').mpr
    (.inr ⟨rfl, rfl, by decide⟩)

end Instruction

end Rv32Asm

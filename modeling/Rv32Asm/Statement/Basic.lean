import Rv32Asm.Program

/-!
# Statements

A statement declares a label or is an operation: a mnemonic with operands, each of which may be
left out. Building an operation checks that the operands are those of the mnemonic's format.
-/

namespace Rv32Asm

/-- The operands that an operation can have. -/
inductive Operand
  | rd | rs1 | rs2 | imm | target
  deriving DecidableEq

def Operand.name : Operand → String
  | rd => "rd"
  | rs1 => "rs1"
  | rs2 => "rs2"
  | imm => "imm"
  | target => "target"

/-- Why an operation is not an entry of a program. -/
inductive StatementError
  /-- An operand is missing that the mnemonic needs. -/
  | missing (op : Mnemonic) (operand : Operand)
  /-- An operand is given that the mnemonic does not take. -/
  | unexpected (op : Mnemonic) (operand : Operand)
  /-- The immediate cannot be encoded. -/
  | field (cause : FieldError)
  deriving DecidableEq

/-- The explanation given to the user. -/
def StatementError.message : StatementError → String
  | missing op operand => op.title ++ ": missing operand `" ++ operand.name ++ "`"
  | unexpected op operand => op.title ++ ": operand `" ++ operand.name ++ "` not accepted"
  | field cause => cause.message

/-- A mnemonic and its operands. -/
structure Operation where
  op : Mnemonic
  rd : Option Reg
  rs1 : Option Reg
  rs2 : Option Reg
  imm : Option Int
  target : Option String
  deriving DecidableEq

namespace Operation

/-- The operand, which has to be given. -/
def need {α : Type} (st : Operation) (operand : Operand) : Option α → Except StatementError α
  | some a => .ok a
  | none => .error (.missing st.op operand)

/-- The operand must not be given. -/
def forbid {α : Type} (st : Operation) (operand : Operand) : Option α → Except StatementError Unit
  | some _ => .error (.unexpected st.op operand)
  | none => .ok ()

/-- An immediate that has to be an unsigned word, for a field of the given width. -/
def unsignedWord (width : Nat) (value : Int) : Except FieldError Word :=
  if (BitVec.ofInt 32 value).toNat = value then .ok (BitVec.ofInt 32 value)
  else .error (.unsignedRange value width)

/-- An instruction, or the reason for which its immediate cannot be encoded. -/
def concrete (result : Except FieldError Instruction) : Except StatementError Entry :=
  match result with
  | .ok inst => .ok (.concrete inst)
  | .error cause => .error (.field cause)

/-- The entry of the program that the operation stands for. -/
def build (st : Operation) : Except StatementError Entry :=
  match st.op with
  | .reg op => do
    st.forbid .target st.target
    st.forbid .imm st.imm
    let rd ← st.need .rd st.rd
    let rs1 ← st.need .rs1 st.rs1
    let rs2 ← st.need .rs2 st.rs2
    return .concrete (Instruction.ofReg op rd rs1 rs2)
  | .imm op => do
    st.forbid .target st.target
    st.forbid .rs2 st.rs2
    let rd ← st.need .rd st.rd
    let rs1 ← st.need .rs1 st.rs1
    let imm ← st.need .imm st.imm
    concrete (Instruction.ofImm op rd rs1 imm)
  | .shift op => do
    st.forbid .target st.target
    st.forbid .rs2 st.rs2
    let imm ← st.need .imm st.imm
    let shamt ← (unsignedWord 5 imm).mapError .field
    let rd ← st.need .rd st.rd
    let rs1 ← st.need .rs1 st.rs1
    concrete (Instruction.ofShift op rd rs1 shamt.toNat)
  | .store op => do
    st.forbid .target st.target
    st.forbid .rd st.rd
    let rs1 ← st.need .rs1 st.rs1
    let rs2 ← st.need .rs2 st.rs2
    let imm ← st.need .imm st.imm
    concrete (Instruction.ofStore op rs1 rs2 imm)
  | .branch op => do
    st.forbid .rd st.rd
    let rs1 ← st.need .rs1 st.rs1
    let rs2 ← st.need .rs2 st.rs2
    match st.target with
    | some label => do
      st.forbid .imm st.imm
      return .pending (.branch st.op rs1 rs2 label)
    | none => do
      let imm ← st.need .imm st.imm
      concrete (Instruction.ofBranch op rs1 rs2 imm)
  | .upper op => do
    st.forbid .target st.target
    st.forbid .rs1 st.rs1
    st.forbid .rs2 st.rs2
    let imm ← st.need .imm st.imm
    let word ← (unsignedWord 32 imm).mapError .field
    let rd ← st.need .rd st.rd
    concrete (Instruction.ofUpper op rd word)
  | .jal => do
    st.forbid .rs1 st.rs1
    st.forbid .rs2 st.rs2
    let rd ← st.need .rd st.rd
    match st.target with
    | some label => do
      st.forbid .imm st.imm
      return .pending (.jump rd label)
    | none => do
      let imm ← st.need .imm st.imm
      concrete (Instruction.ofJump rd imm)

end Operation

/-- A line of a program as it is written. -/
inductive Statement
  | label (name : String)
  | operation (st : Operation)
  deriving DecidableEq

/-- The item of the program that the statement stands for. -/
def Statement.build : Statement → Except StatementError Item
  | label name => .ok (.label name)
  | operation st => .entry <$> st.build

/-- The program of a list of statements, or the first error. -/
def Program.ofStatements (sts : List Statement) : Except StatementError Program :=
  sts.mapM Statement.build

end Rv32Asm

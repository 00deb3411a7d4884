import Rv32Asm.Isa.Instruction

/-!
# Machine words

`encode` lays the fields of an instruction side by side, highest bits first, as the diagrams of the
instruction set show them; `decode?` reads them back from the places where they stand.
-/

namespace Rv32Asm

namespace Instruction

/-- The machine word of an instruction. -/
def encode : Instruction → Word
  | r funct3 funct7 rd rs1 rs2 =>
    funct7 ++ rs2 ++ rs1 ++ funct3 ++ rd ++ Opcode.op.bits
  | i opcode funct3 rd rs1 imm =>
    imm ++ rs1 ++ funct3 ++ rd ++ opcode.opcode.bits
  | s funct3 rs1 rs2 imm =>
    imm.extractLsb' 5 7 ++ rs2 ++ rs1 ++ funct3 ++ imm.extractLsb' 0 5 ++ Opcode.store.bits
  | b funct3 rs1 rs2 offset =>
    offset.extractLsb' 11 1 ++ offset.extractLsb' 4 6 ++ rs2 ++ rs1 ++ funct3
      ++ offset.extractLsb' 0 4 ++ offset.extractLsb' 10 1 ++ Opcode.branch.bits
  | u op rd imm =>
    imm ++ rd ++ op.opcode.bits
  | j rd offset =>
    offset.extractLsb' 19 1 ++ offset.extractLsb' 0 10 ++ offset.extractLsb' 10 1
      ++ offset.extractLsb' 11 8 ++ rd ++ Opcode.jal.bits

end Instruction

namespace Word

def opcode? (w : Word) : Option Opcode := Opcode.ofNat? (w.extractLsb' 0 7).toNat

def rd (w : Word) : Reg := w.extractLsb' 7 5

def funct3 (w : Word) : BitVec 3 := w.extractLsb' 12 3

def rs1 (w : Word) : Reg := w.extractLsb' 15 5

def rs2 (w : Word) : Reg := w.extractLsb' 20 5

def funct7 (w : Word) : BitVec 7 := w.extractLsb' 25 7

/-- The immediate of format I. -/
def immI (w : Word) : BitVec 12 := w.extractLsb' 20 12

/-- The immediate of format S. -/
def immS (w : Word) : BitVec 12 := w.extractLsb' 25 7 ++ w.extractLsb' 7 5

/-- The offset of format B without its lowest bit. -/
def offsetB (w : Word) : BitVec 12 :=
  w.extractLsb' 31 1 ++ w.extractLsb' 7 1 ++ w.extractLsb' 25 6 ++ w.extractLsb' 8 4

/-- The immediate of format U. -/
def immU (w : Word) : BitVec 20 := w.extractLsb' 12 20

/-- The offset of format J without its lowest bit. -/
def offsetJ (w : Word) : BitVec 20 :=
  w.extractLsb' 31 1 ++ w.extractLsb' 12 8 ++ w.extractLsb' 20 1 ++ w.extractLsb' 21 10

/-- The instruction that a machine word holds; there is none if its opcode is not in the base
set. -/
def decode? (w : Word) : Option Instruction :=
  (opcode? w).map fun
    | .op => .r (funct3 w) (funct7 w) (rd w) (rs1 w) (rs2 w)
    | .jalr => .i .jalr (funct3 w) (rd w) (rs1 w) (immI w)
    | .load => .i .load (funct3 w) (rd w) (rs1 w) (immI w)
    | .opImm => .i .opImm (funct3 w) (rd w) (rs1 w) (immI w)
    | .store => .s (funct3 w) (rs1 w) (rs2 w) (immS w)
    | .branch => .b (funct3 w) (rs1 w) (rs2 w) (offsetB w)
    | .lui => .u .lui (rd w) (immU w)
    | .auipc => .u .auipc (rd w) (immU w)
    | .jal => .j (rd w) (offsetJ w)

end Word

end Rv32Asm

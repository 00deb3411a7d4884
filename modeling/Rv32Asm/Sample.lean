import Rv32Asm.Named
import Rv32Asm.Program

/-!
# Sample programs

Two programs that are built in: one drives a seven-segment display in a loop, the other has an
instruction of every mnemonic.
-/

namespace Rv32Asm

/-- The built-in programs. -/
inductive Sample
  | sevenSegment | encodings
  deriving DecidableEq

namespace Sample

/-- An instruction as an item. -/
def inst (result : Except FieldError Instruction) : Except FieldError Item :=
  (fun i => .entry (.concrete i)) <$> result

/-- A reference as an item. -/
def ref (result : Except FieldError Reference) : Except FieldError Item :=
  (fun r => .entry (.pending r)) <$> result

/-- Lights all segments over and over. -/
def sevenSegmentItems : List (Except FieldError Item) :=
  [inst (Instruction.upper .lui 5 0x04000000#32),
   .ok (.label "loop"),
   inst (Instruction.imm .addi 10 0 0xff),
   inst (Instruction.store .sb 5 10 0),
   ref (Reference.jumpTo 0 "loop")]

/-- Every mnemonic once, in the order of the instruction set's table. -/
def encodingItems : List (Except FieldError Item) :=
  [inst (Instruction.upper .lui 1 0x12345000#32),
   inst (Instruction.upper .auipc 2 0x23456000#32),
   inst (Instruction.jal 3 0x65432),
   inst (Instruction.imm .jalr 4 11 0x555),
   inst (Instruction.branch .beq 3 4 (-4)),
   inst (Instruction.branch .bne 5 6 0x434),
   inst (Instruction.branch .blt 7 8 (-0x876)),
   inst (Instruction.branch .bge 9 10 0xbcc),
   inst (Instruction.branch .bltu 11 12 (-0xedc)),
   inst (Instruction.branch .bgeu 13 14 0xaaa),
   inst (Instruction.imm .lb 15 16 0x456),
   inst (Instruction.imm .lh 17 18 (-0x679)),
   inst (Instruction.imm .lw 19 20 (-0x544)),
   inst (Instruction.imm .lbu 21 22 (-0x211)),
   inst (Instruction.imm .lhu 23 24 0x111),
   inst (Instruction.store .sb 25 26 0x222),
   inst (Instruction.store .sh 27 28 0x333),
   inst (Instruction.store .sw 29 30 0x444),
   inst (Instruction.imm .addi 6 5 10),
   inst (Instruction.imm .slti 0 31 0x555),
   inst (Instruction.imm .sltiu 1 30 0x666),
   inst (Instruction.imm .xori 2 29 0x777),
   inst (Instruction.imm .ori 3 28 (-0x778)),
   inst (Instruction.imm .andi 4 27 (-0x667)),
   inst (Instruction.shift .slli 5 26 0xa),
   inst (Instruction.shift .srli 6 25 0xb),
   inst (Instruction.shift .srai 7 24 0xc),
   inst (Instruction.reg .add 8 9 10),
   inst (Instruction.reg .sub 11 12 13),
   inst (Instruction.reg .sll 14 15 16),
   inst (Instruction.reg .slt 17 18 19),
   inst (Instruction.reg .sltu 20 21 22),
   inst (Instruction.reg .xor 23 24 25),
   inst (Instruction.reg .srl 26 27 28),
   inst (Instruction.reg .sra 29 30 31),
   inst (Instruction.reg .or 1 2 3),
   inst (Instruction.reg .and 4 5 6)]

/-- The program of a sample. -/
def program : Sample → Except FieldError Program
  | sevenSegment => sevenSegmentItems.mapM id
  | encodings => encodingItems.mapM id

end Sample

end Rv32Asm

import Rv32Asm.Assembly.Basic
import Rv32Asm.Hex.Record

/-!
# HEX images

An assembled program as HEX records: a data record of four bytes for each instruction, highest byte
first, and the end-of-file record. The address of a data record is either the position of the
instruction or its true address.
-/

namespace Rv32Asm.Hex

/-- What the address field of a data record holds. -/
inductive Addressing
  /-- The position of the instruction: 0, 1, 2, … -/
  | ordinal
  /-- The lower half of the instruction's address. Records that set the upper half are put in
  wherever it changes. -/
  | absolute
  deriving DecidableEq

instance : Named Addressing where
  all := [.ordinal, .absolute]
  name
    | .ordinal => "Ordinal" | .absolute => "Absolute"

/-- The position of an instruction does not fit in the 16-bit address field. -/
structure PositionOverflow where
  index : Nat
  deriving DecidableEq

/-- The explanation given to the user. -/
def PositionOverflow.message (e : PositionOverflow) : String :=
  "record index " ++ Text.decimal e.index ++ " does not fit the 16-bit address field"

/-- The data record of the instruction at a position. -/
def ordinalRecord (inst : Instruction) (index : Nat) : Except PositionOverflow Record :=
  if index < 0x10000 then .ok (.data (BitVec.ofNat 16 index) inst.encode) else .error ⟨index⟩

/-- The records written so far, and the upper half of the address that is in force. -/
structure Emitter where
  upper : BitVec 16
  records : Array Record

/-- Nothing is written, and the upper half is zero. -/
def Emitter.start : Emitter := ⟨0, #[]⟩

/-- Writes the data record of an instruction, after a record for the upper half of its address if
that is not in force. -/
def Emitter.emit (e : Emitter) (address : Word) (inst : Instruction) : Emitter :=
  let upper := address.extractLsb' 16 16
  let records := if upper = e.upper then e.records
    else e.records.push (.extendedLinearAddress upper)
  ⟨upper, records.push (.data (address.extractLsb' 0 16) inst.encode)⟩

/-- The data records of an assembled program. -/
def dataRecords (a : Assembly) : Addressing → Except PositionOverflow (List Record)
  | .ordinal => a.instructions.zipIdx.mapM fun (inst, index) => ordinalRecord inst index
  | .absolute =>
    .ok (a.placed.foldl (fun (e : Emitter) p => e.emit p.1 p.2) .start).records.toList

/-- The records of an assembled program. -/
def records (a : Assembly) (addressing : Addressing) : Except PositionOverflow (List Record) :=
  (· ++ [Record.endOfFile]) <$> dataRecords a addressing

/-- The lines of the HEX file of an assembled program, one for each record. -/
def lines (a : Assembly) (addressing : Addressing) : Except PositionOverflow (List String) :=
  (List.map fun r => r.text ++ "\n") <$> records a addressing

/-- The HEX file of an assembled program. -/
def image (a : Assembly) (addressing : Addressing) : Except PositionOverflow String :=
  String.join <$> lines a addressing

end Rv32Asm.Hex

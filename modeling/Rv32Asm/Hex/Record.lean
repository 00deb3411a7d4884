import Rv32Asm.Field
import Rv32Asm.Named
import Rv32Asm.Text.Numeral

/-!
# Intel HEX records

A record is a kind, a 16-bit address and up to 255 bytes of payload. Its text is a colon and the
bytes in capital hexadecimal: the payload's length, the address, the kind, the payload and a
checksum that makes all bytes add up to zero.
-/

namespace Rv32Asm.Hex

abbrev Byte := BitVec 8

/-- What a record is for. -/
inductive RecordKind
  | data | endOfFile | extendedLinearAddress
  deriving DecidableEq

namespace RecordKind

instance : Named RecordKind where
  all := [data, endOfFile, extendedLinearAddress]
  name
    | data => "Data" | endOfFile => "EndOfFile" | extendedLinearAddress => "ExtendedLinearAddress"

/-- The byte that stands for the kind. -/
def code : RecordKind → Byte
  | data => 0x00
  | endOfFile => 0x01
  | extendedLinearAddress => 0x04

/-- The kind that a byte stands for. -/
def ofCode? (b : Byte) : Option RecordKind :=
  (Named.all : List RecordKind).find? fun kind => kind.code == b

end RecordKind

/-- Why a text is not a record. -/
inductive RecordError
  /-- The text does not have the form of a record; it is given in full. -/
  | malformed (text : String)
  /-- The last byte is not the checksum of the others. -/
  | checksum (expected found : Byte)
  /-- The kind is none of those above. -/
  | unknownKind (code : Byte)
  deriving DecidableEq

/-- The explanation given to the user. -/
def RecordError.message : RecordError → String
  | malformed text => "malformed record `" ++ text ++ "`"
  | checksum expected found =>
    "checksum mismatch: expected 0x" ++ Text.hexFixed 2 expected.toNat ++ ", found 0x"
      ++ Text.hexFixed 2 found.toNat
  | unknownKind code => "unsupported record type 0x" ++ Text.hexFixed 2 code.toNat

/-- The two's complement of the sum of the bytes. -/
def checksum (bytes : List Byte) : Byte := -bytes.foldl (· + ·) 0

/-- One line of a HEX file. -/
structure Record where
  kind : RecordKind
  address : BitVec 16
  payload : List Byte
  deriving DecidableEq

/-- The bytes of a word, highest first. -/
def wordBytes (w : Word) : List Byte :=
  [w.extractLsb' 24 8, w.extractLsb' 16 8, w.extractLsb' 8 8, w.extractLsb' 0 8]

/-- The bytes of a halfword, highest first. -/
def halfBytes (h : BitVec 16) : List Byte := [h.extractLsb' 8 8, h.extractLsb' 0 8]

namespace Record

/-- A record that holds a machine word. -/
def data (address : BitVec 16) (word : Word) : Record := ⟨.data, address, wordBytes word⟩

/-- The record that ends a file. -/
def endOfFile : Record := ⟨.endOfFile, 0, []⟩

/-- A record that sets the upper half of the addresses that follow. -/
def extendedLinearAddress (upper : BitVec 16) : Record :=
  ⟨.extendedLinearAddress, 0, halfBytes upper⟩

/-- All that the checksum covers: length, address, kind and payload. -/
def bytes (r : Record) : List Byte :=
  BitVec.ofNat 8 r.payload.length :: halfBytes r.address ++ r.kind.code :: r.payload

def checksum (r : Record) : Byte := Hex.checksum r.bytes

/-! ### Writing -/

/-- A byte as two capital hexadecimal digits. -/
def byteDigits (b : Byte) : List Char := (Text.fixedDigits 16 2 b.toNat).map Char.toUpper

/-- The record as a line, without a newline. -/
def text (r : Record) : String :=
  String.ofList (':' :: (r.bytes ++ [r.checksum]).flatMap byteDigits)

/-! ### Reading -/

/-- Reads two characters for each byte. -/
def readBytes? : List Char → Option (List Byte)
  | [] => some []
  | [_] => none
  | a :: b :: cs => do
    let n ← (Text.readNumeral 16 0x100 [a, b]).toOption
    return BitVec.ofNat 8 n :: (← readBytes? cs)

/-- Reads a record, with any white space around it. The form is checked first, then the checksum,
then the kind. -/
def parse (s : String) : Except RecordError Record :=
  match Text.trim s.toList with
  | ':' :: digits =>
    match readBytes? digits with
    | some (count :: hi :: lo :: code :: rest) =>
      if rest.length = count.toNat + 1 then
        let payload := rest.dropLast
        let expected := Hex.checksum (count :: hi :: lo :: code :: payload)
        let found := rest.getLastD 0
        if expected = found then
          match RecordKind.ofCode? code with
          | some kind => .ok ⟨kind, hi ++ lo, payload⟩
          | none => .error (.unknownKind code)
        else .error (.checksum expected found)
      else .error (.malformed s)
    | _ => .error (.malformed s)
  | _ => .error (.malformed s)

end Record

end Rv32Asm.Hex

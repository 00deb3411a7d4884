import Rv32Asm.Assembly.Assembler
import Rv32Asm.Assembly.Basic
import Rv32Asm.Assembly.Error
import Rv32Asm.Assembly.Label
import Rv32Asm.Assembly.Settings
import Rv32Asm.Assembly.Trace
import Rv32Asm.CommandLine.Arguments
import Rv32Asm.CommandLine.Run
import Rv32Asm.Disassembly
import Rv32Asm.Field
import Rv32Asm.Hex.Image
import Rv32Asm.Hex.Record
import Rv32Asm.Isa.Encoding
import Rv32Asm.Isa.Immediate
import Rv32Asm.Isa.Instruction
import Rv32Asm.Isa.Mnemonic
import Rv32Asm.Isa.Opcode
import Rv32Asm.Json.Form
import Rv32Asm.Json.Number
import Rv32Asm.Json.Reader
import Rv32Asm.Json.Skip
import Rv32Asm.Json.Text
import Rv32Asm.Json.Value
import Rv32Asm.Json.Writer
import Rv32Asm.Main
import Rv32Asm.Named
import Rv32Asm.Program
import Rv32Asm.Proofs.Assemble
import Rv32Asm.Proofs.Build
import Rv32Asm.Proofs.Describe
import Rv32Asm.Proofs.Failure
import Rv32Asm.Proofs.Field
import Rv32Asm.Proofs.FirstPass
import Rv32Asm.Proofs.Image
import Rv32Asm.Proofs.ImageLoad
import Rv32Asm.Proofs.ImageRead
import Rv32Asm.Proofs.MachineWord
import Rv32Asm.Proofs.Operands
import Rv32Asm.Proofs.Reassembly
import Rv32Asm.Proofs.RecordText
import Rv32Asm.Proofs.Resolution
import Rv32Asm.Proofs.WordLayout
import Rv32Asm.Sample
import Rv32Asm.Statement.Basic
import Rv32Asm.Statement.File
import Rv32Asm.Statement.Json
import Rv32Asm.Text.Blank
import Rv32Asm.Text.Digits
import Rv32Asm.Text.Numeral
import Rv32Asm.Text.Quoted
import Rv32Asm.Text.Unprintable
import Rv32Asm.Proofs.Relocation
import Rv32Asm.Proofs.Relabelling
import Rv32Asm.Proofs.Linking
import Rv32Asm.Proofs.Session
import Rv32Asm.Proofs.RecordedAddresses
import Rv32Asm.Proofs.Acceptance
import Rv32Asm.Proofs.Digits
import Rv32Asm.Proofs.DisassemblyText
import Rv32Asm.Proofs.JsonToken
import Rv32Asm.Proofs.JsonValue
import Rv32Asm.Proofs.StatementText
import Rv32Asm.Proofs.RecordSpelling
import Rv32Asm.Proofs.RecordCorruption
import Rv32Asm.Proofs.Segments
import Rv32Asm.Proofs.Numeral
import Rv32Asm.Proofs.OrdinalRecords
import Rv32Asm.Proofs.Listing
import Rv32Asm.Proofs.SignedField
import Rv32Asm.Proofs.ImmediatePieces
import Rv32Asm.Proofs.StatementMembers
import Rv32Asm.Proofs.CommandOutcome
import Rv32Asm.Proofs.LabelHistory
import Rv32Asm.Proofs.JsonMembers

import Mathlib
import Rv32Asm.CommandLine.Run
import Rv32Asm.Proofs.DisassemblyText
import Rv32Asm.Proofs.ImageRead
import Rv32Asm.Proofs.JsonValue

/-!
# Listings

A listing has one line for each instruction, and every line starts with the machine word, so the
instructions can be read back from the text (`readLine?_line`). The listing in JSON can be read back
too, whatever the instructions (`parse_jsonListing`), and its rows are the lines of the text in
parts.
-/

namespace Rv32Asm

/-! ### Texts of one line -/

/-- The text has no newline in it. -/
def OneLine (s : String) : Prop := '\n' ∉ s.toList

theorem oneLine_append {s t : String} (hs : OneLine s) (ht : OneLine t) : OneLine (s ++ t) := by
  unfold OneLine at hs ht ⊢
  rw [String.toList_append, List.mem_append]
  exact not_or.mpr ⟨hs, ht⟩

theorem oneLine_intercalate {sep : String} (hsep : OneLine sep) {ts : List String}
    (h : ∀ t ∈ ts, OneLine t) : OneLine (sep.intercalate ts) := by
  induction ts with
  | nil => simp [OneLine]
  | cons t ts ih =>
    have ht := h t List.mem_cons_self
    have hts := ih fun t' ht' => h t' (List.mem_cons_of_mem t ht')
    cases ts with
    | nil => simpa using ht
    | cons t' ts =>
      rw [String.intercalate_cons_cons]
      exact oneLine_append (oneLine_append ht hsep) hts

theorem digitChar_ne_newline (d : Nat) : d.digitChar ≠ '\n' := Nat.digitChar_ne '\n' rfl

theorem oneLine_placeholder : OneLine placeholder := by
  unfold OneLine
  decide

/-- An operand that may be absent. -/
theorem oneLine_getD {α : Type} {f : α → String} (hf : ∀ a, OneLine (f a)) (o : Option α) :
    OneLine ((o.map f).getD placeholder) := by
  cases o with
  | none => exact oneLine_placeholder
  | some a => exact hf a

theorem oneLine_regText (r : Option Reg) : OneLine (regText r) :=
  oneLine_getD (Reg.not_mem_name (by decide) digitChar_ne_newline) r

theorem oneLine_decimal (n : Nat) : OneLine (Text.decimal n) := by
  unfold OneLine Text.decimal
  rw [String.toList_ofList]
  exact Text.not_mem_toDigits (by decide) digitChar_ne_newline n

theorem oneLine_capitals (m : Mnemonic) : OneLine m.capitals := by
  have hall : ∀ m ∈ (Named.all : List Mnemonic), '\n' ∉ m.capitals.toList := by decide +kernel
  exact hall m (Mnemonic.mem_all m)

namespace Instruction

theorem oneLine_nameText (inst : Instruction) : OneLine inst.nameText := by
  unfold nameText
  split
  · exact oneLine_capitals _
  · exact oneLine_placeholder

theorem oneLine_operandTexts (inst : Instruction) : ∀ t ∈ inst.operandTexts, OneLine t := by
  have himm := oneLine_getD (not_mem_immText (by decide) (by decide) digitChar_ne_newline) inst.imm?
  have hshamt := oneLine_getD (fun n : BitVec 5 => oneLine_decimal n.toNat) inst.shamt?
  unfold operandTexts
  cases inst.format
  all_goals
    simp only [List.forall_mem_cons, List.not_mem_nil, IsEmpty.forall_iff, implies_true,
      oneLine_regText, himm, hshamt, and_self]

theorem oneLine_text (inst : Instruction) : OneLine inst.text := by
  have hblank : OneLine " " := by simp [OneLine]
  have hcomma : OneLine ", " := by simp [OneLine]
  have hpadding : OneLine (String.ofList (List.replicate (5 - inst.nameText.length) ' ')) := by
    simp [OneLine, List.mem_replicate]
  have hname := oneLine_append inst.oneLine_nameText hpadding
  have hoperands := oneLine_intercalate hcomma inst.oneLine_operandTexts
  exact oneLine_append (oneLine_append hname hblank) hoperands

theorem oneLine_wordText (inst : Instruction) : OneLine inst.wordText := by
  unfold OneLine wordText Text.hexFixed
  rw [String.toList_ofList]
  exact Text.not_mem_fixedDigits digitChar_ne_newline 16 8 _

/-- No line of a listing breaks off. -/
theorem oneLine_line (inst : Instruction) : OneLine inst.line := by
  have hbar : OneLine " | " := by simp [OneLine]
  exact oneLine_append (oneLine_append inst.oneLine_wordText hbar) inst.oneLine_text

end Instruction

/-! ### Reading a listing -/

/-- The instruction whose machine word a line starts with, in eight hexadecimal digits. -/
def readLine? (line : String) : Option Instruction :=
  (Text.readNumeral 16 (2 ^ 32) (line.toList.take 8)).toOption.bind fun n =>
    Word.decode? (BitVec.ofNat 32 n)

theorem take_line (inst : Instruction) :
    inst.line.toList.take 8 = Text.fixedDigits 16 8 inst.encode.toNat := by
  have hlength := Text.length_fixedDigits 16 8 inst.encode.toNat
  unfold Instruction.line Instruction.wordText Text.hexFixed
  rw [String.toList_append, String.toList_append, String.toList_ofList, List.append_assoc,
    List.take_left' hlength]

/-- A line shows its instruction, whether or not that belongs to a mnemonic. -/
theorem readLine?_line (inst : Instruction) : readLine? inst.line = some inst := by
  have hlt : inst.encode.toNat < 16 ^ 8 := by
    have hword := inst.encode.isLt
    omega
  have hread : Text.readNumeral 16 (2 ^ 32) (Text.fixedDigits 16 8 inst.encode.toNat) =
      .ok inst.encode.toNat := Text.readNumeral_fixedDigits (by decide) hlt (by decide)
  unfold readLine?
  rw [take_line, hread]
  simp [Except.toOption, Instruction.decode?_encode]

namespace Assembly

theorem splitLines_listing (a : Assembly) :
    Hex.splitLines a.listing = a.instructions.map Instruction.line ++ [""] := by
  have hlines : ∀ l ∈ a.instructions.map Instruction.line, '\n' ∉ l.toList := by
    intro l hl
    obtain ⟨inst, -, rfl⟩ := List.mem_map.mp hl
    exact inst.oneLine_line
  have hsplit := Hex.splitLines_join hlines
  rwa [List.map_map] at hsplit

theorem map_readLine?_lines (a : Assembly) :
    (a.instructions.map Instruction.line).map readLine? = a.instructions.map some := by
  rw [List.map_map]
  apply List.map_congr_left
  intro inst _
  rw [Function.comp_apply, readLine?_line]

/-- A listing determines the instructions: it has as many lines as there are instructions, all of
them ended by a newline, the machine words that the lines start with are decoded to the
instructions in order, and no assembly of other instructions has the same listing. -/
theorem listing_determines_instructions (a : Assembly) :
    (∃ lines, Hex.splitLines a.listing = lines ++ [""] ∧
      lines.length = a.instructions.length ∧ lines.map readLine? = a.instructions.map some) ∧
    ∀ b : Assembly, b.listing = a.listing → b.instructions = a.instructions := by
  refine ⟨⟨_, a.splitLines_listing, by simp, a.map_readLine?_lines⟩, ?_⟩
  intro b hlisting
  have hsplit := b.splitLines_listing
  rw [hlisting, a.splitLines_listing] at hsplit
  have hlines := List.append_cancel_right hsplit
  -- the same lines are read as the same instructions
  have hread := b.map_readLine?_lines
  rw [← hlines, a.map_readLine?_lines] at hread
  exact (List.map_injective_iff.mpr (Option.some_injective _) hread).symm

end Assembly

/-! ### Rows of a listing -/

namespace CommandLine

/-- A row of a listing: an address, a machine word as text and the instruction as text. -/
structure ListingRow where
  address : Nat
  word : String
  text : String

namespace ListingRow

/-- The row in JSON. -/
def toJson (row : ListingRow) : Json.Value :=
  .object [("address", .int row.address), ("word", .string row.word), ("text", .string row.text)]

/-- The row as a line of the text listing. -/
def line (row : ListingRow) : String := row.word ++ " | " ++ row.text ++ "\n"

/-- The row of an instruction at an address. -/
def ofPlaced (p : Word × Instruction) : ListingRow := ⟨p.1.toNat, p.2.wordText, p.2.text⟩

theorem fits_toJson {row : ListingRow} (h : row.address < 2 ^ 64) (depth : Nat) :
    Json.Fits (depth + 1) row.toJson := by
  apply Json.Fits.object
  simp only [List.forall_mem_cons, List.not_mem_nil, IsEmpty.forall_iff, implies_true, and_true]
  exact ⟨.int depth (by omega) (by omega), .string depth _, .string depth _⟩

end ListingRow

theorem jsonListing_eq (a : Assembly) :
    jsonListing a = .array ((a.placed.map ListingRow.ofPlaced).map ListingRow.toJson) := by
  unfold jsonListing
  rw [List.map_map]
  rfl

/-- The listing in JSON is read back, whatever white space follows it. -/
theorem parse_jsonListing (a : Assembly) {tail : String} (htail : Json.Blank tail.toList) :
    Json.parse ((jsonListing a).pretty ++ tail) = .ok (jsonListing a) := by
  apply Json.parse_pretty_append ?_ htail
  rw [jsonListing_eq]
  apply Json.Fits.array
  simp only [List.forall_mem_map]
  intro p _
  have haddress : (ListingRow.ofPlaced p).address < 2 ^ 32 := p.1.isLt
  exact ListingRow.fits_toJson (by omega) _

theorem join_lines_rows (a : Assembly) :
    String.join ((a.placed.map ListingRow.ofPlaced).map ListingRow.line) = a.listing := by
  have hline : ListingRow.line ∘ ListingRow.ofPlaced = fun p => p.2.line ++ "\n" := by
    funext p
    simp [ListingRow.line, ListingRow.ofPlaced, Instruction.line]
  unfold Assembly.listing Assembly.lines
  conv_rhs => rw [← Hex.map_snd_placed a, List.map_map]
  rw [List.map_map, hline]
  rfl

/-- The invocation asks for the listing of a program in JSON, from an origin on and on the standard
output; `files` are the files that exist. -/
structure Invocation.AsksForJson (invocation : Invocation) (files : String → Option ByteArray)
    (p : Program) (origin : Word) : Prop where
  command : invocation.command = .listing .json
  out : invocation.out = none
  loaded : loadSource (invocation.inputPath?.bind files) invocation.source = .ok p
  placed : Text.readAddress invocation.origin = .ok origin

theorem run_of_render {contents : Option ByteArray} {invocation : Invocation} {p : Program}
    {origin : Word} {a : Assembly} {text : String}
    (hloaded : loadSource contents invocation.source = .ok p)
    (hplaced : Text.readAddress invocation.origin = .ok origin) (ha : assemble p origin = .ok a)
    (htext : render a invocation.command = .ok text) :
    run contents invocation = .ok ⟨text, invocation.out⟩ := by
  unfold run
  rw [hloaded, hplaced]
  simp [bind, Except.bind, pure, Except.pure, Except.mapError, ha, htext]

/-- The listing is printed, and nothing else is left. -/
theorem outcome_of_asksForJson {files : String → Option ByteArray} {args : List String}
    {invocation : Invocation} {p : Program} {origin : Word} {a : Assembly}
    (hparsed : parse? args = some invocation) (hasks : invocation.AsksForJson files p origin)
    (ha : assemble p origin = .ok a) :
    outcome files args = ⟨0, (jsonListing a).pretty ++ "\n", none, none⟩ := by
  have htext : render a invocation.command = .ok ((jsonListing a).pretty ++ "\n") := by
    rw [hasks.command]
    rfl
  unfold outcome
  rw [hparsed]
  simp only [run_of_render hasks.loaded hasks.placed ha htext, hasks.out, Outcome.ofRun]

theorem address_of_getElem?_rows {p : Program} {origin : Word} {a : Assembly}
    (ha : assemble p origin = .ok a) {i : Nat} {row : ListingRow}
    (h : (a.placed.map ListingRow.ofPlaced)[i]? = some row) :
    row.address = origin.toNat + 4 * i := by
  obtain ⟨rfl, -, hend⟩ := assemble_within ha
  rw [List.getElem?_map, Assembly.getElem?_placed] at h
  obtain ⟨q, hq, rfl⟩ := Option.map_eq_some_iff.mp h
  obtain ⟨inst, hinst, rfl⟩ := Option.map_eq_some_iff.mp hq
  have hi := (List.getElem?_eq_some_iff.mp hinst).1
  exact Assembly.toNat_address hend hi

/-- The listing of an assembled program in JSON agrees with its listing in text. The text that is
printed reads back as an array with one object for each instruction, in order: the address, which
does not wrap, and two strings that make up the line of the instruction. -/
theorem json_listing_agrees {p : Program} {origin : Word} {a : Assembly}
    (ha : assemble p origin = .ok a) :
    ∃ (text : String) (rows : List ListingRow),
      render a (.listing .json) = .ok text ∧
      (∀ files args invocation, parse? args = some invocation →
        invocation.AsksForJson files p origin → outcome files args = ⟨0, text, none, none⟩) ∧
      Json.parse text = .ok (.array (rows.map ListingRow.toJson)) ∧
      rows.length = a.instructions.length ∧
      rows.map ListingRow.address = a.placed.map (fun q => q.1.toNat) ∧
      (∀ (i : Nat) (row : ListingRow), rows[i]? = some row → row.address = origin.toNat + 4 * i) ∧
      String.join (rows.map fun row => row.word ++ " | " ++ row.text ++ "\n") = a.listing := by
  have hblank : Json.Blank "\n".toList := by simp [Json.Blank, Json.isSpace]
  refine ⟨(jsonListing a).pretty ++ "\n", a.placed.map ListingRow.ofPlaced, rfl, ?_, ?_, ?_, ?_, ?_,
    join_lines_rows a⟩
  · intro files args invocation hparsed hasks
    exact outcome_of_asksForJson hparsed hasks ha
  · rw [← jsonListing_eq]
    exact parse_jsonListing a hblank
  · simp [Assembly.placed]
  · rw [List.map_map]
    rfl
  · intro i row hrow
    exact address_of_getElem?_rows ha hrow

/-- The program of the display sample, listed in JSON at the usual origin. -/
theorem json_listing_of_sevenSegment :
    ∃ (p : Program) (a : Assembly) (text : String) (rows : List ListingRow),
      Sample.sevenSegment.program = .ok p ∧ assemble p 0x10000000#32 = .ok a ∧
      outcome (fun _ => none) ["--demo", "seven-segment", "listing", "--format", "json"] =
        ⟨0, text, none, none⟩ ∧
      Json.parse text = .ok (.array (rows.map ListingRow.toJson)) ∧ rows.length = 4 ∧
      (∀ (i : Nat) (row : ListingRow), rows[i]? = some row → row.address = 0x10000000 + 4 * i) ∧
      String.join (rows.map fun row => row.word ++ " | " ++ row.text ++ "\n") = a.listing := by
  have hprogram : Sample.sevenSegment.program =
      .ok [.entry (.concrete (.u .lui 5 0x04000)), .label "loop",
        .entry (.concrete (.i .opImm 0 10 0 0xff)), .entry (.concrete (.s 0 5 10 0)),
        .entry (.pending (.jump 0 "loop"))] := rfl
  have hassemble : assemble [.entry (.concrete (.u .lui 5 0x04000)), .label "loop",
        .entry (.concrete (.i .opImm 0 10 0 0xff)), .entry (.concrete (.s 0 5 10 0)),
        .entry (.pending (.jump 0 "loop"))] 0x10000000#32 =
      .ok ⟨0x10000000#32, [.u .lui 5 0x04000, .i .opImm 0 10 0 0xff, .s 0 5 10 0, .j 0 (-4)]⟩ := rfl
  have hparsed : parse? ["--demo", "seven-segment", "listing", "--format", "json"] =
      some ⟨some (.sample .sevenSegment), "0x10000000", .listing .json, none⟩ := rfl
  obtain ⟨text, rows, -, hprinted, hparse, hlength, -, haddress, hlisting⟩ :=
    json_listing_agrees hassemble
  have hasks : Invocation.AsksForJson
      ⟨some (.sample .sevenSegment), "0x10000000", .listing .json, none⟩ (fun _ => none) _
      0x10000000#32 := ⟨rfl, rfl, by rw [loadSource, hprogram]; rfl, rfl⟩
  exact ⟨_, _, text, rows, hprogram, hassemble, hprinted _ _ _ hparsed hasks, hparse, hlength,
    haddress, hlisting⟩

end CommandLine

end Rv32Asm

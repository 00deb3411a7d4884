import Mathlib
import Rv32Asm.Proofs.Listing
import Rv32Asm.Proofs.Numeral
import Rv32Asm.Proofs.OrdinalRecords

/-!
# Outcomes of the command line

A run either completes and leaves the whole text that it was asked for, or it leaves nothing but an
error. It completes if all of its four steps can be taken (`Invocation.Completes`); otherwise the
error is that of the first step that cannot (`Invocation.FirstFailure`), whatever the steps behind
it would do. There is no third case (`completes_or_firstFailure`).
-/

namespace Rv32Asm

/-- The built-in programs can be encoded. -/
theorem Sample.exists_program (s : Sample) : ∃ p, s.program = .ok p := by
  cases s with
  | sevenSegment => exact ⟨_, rfl⟩
  | encodings => exact ⟨_, rfl⟩

namespace CommandLine

variable {files : String → Option ByteArray} {invocation : Invocation} {e : RunError}

/-! ### Loading -/

/-- The source gives the program; `files` are the files that exist. -/
inductive Source.Gives (files : String → Option ByteArray) : Source → Program → Prop
  | file {path : String} {bytes : ByteArray} {text : String} {p : Program}
      (hfile : files path = some bytes) (htext : String.fromUTF8? bytes = some text)
      (hread : Program.read text = .ok p) : Gives files (.file path) p
  | sample {s : Sample} {p : Program} (hprogram : s.program = .ok p) : Gives files (.sample s) p

/-- There is no program to load: no source is given, or the file is missing, is no text or holds no
program. -/
inductive LoadFailure (files : String → Option ByteArray) : Option Source → RunError → Prop
  | noSource : LoadFailure files none .noSource
  | missing {path : String} (hfile : files path = none) :
      LoadFailure files (some (.file path)) (.load (.read .missing))
  | invalidText {path : String} {bytes : ByteArray} (hfile : files path = some bytes)
      (htext : String.fromUTF8? bytes = none) :
      LoadFailure files (some (.file path)) (.load (.read .invalidText))
  | program {path : String} {bytes : ByteArray} {text : String} {cause : ProgramError}
      (hfile : files path = some bytes) (htext : String.fromUTF8? bytes = some text)
      (hread : Program.read text = .error cause) :
      LoadFailure files (some (.file path)) (.load (.program cause))

/-- A source that is given loads or fails to; only a file can fail. -/
theorem gives_or_loadFailure (files : String → Option ByteArray) (source : Option Source) :
    (∃ s p, source = some s ∧ s.Gives files p) ∨ ∃ e, LoadFailure files source e := by
  cases source with
  | none => exact .inr ⟨_, .noSource⟩
  | some s =>
    cases s with
    | sample s =>
      obtain ⟨p, hp⟩ := s.exists_program
      exact .inl ⟨_, p, rfl, .sample hp⟩
    | file path =>
      cases hfile : files path with
      | none => exact .inr ⟨_, .missing hfile⟩
      | some bytes =>
        cases htext : String.fromUTF8? bytes with
        | none => exact .inr ⟨_, .invalidText hfile htext⟩
        | some text =>
          cases hread : Program.read text with
          | error cause => exact .inr ⟨_, .program hfile htext hread⟩
          | ok p => exact .inl ⟨_, p, rfl, .file hfile htext hread⟩

theorem loadSource_file {path : String} (h : invocation.source = some (.file path)) :
    loadSource (invocation.inputPath?.bind files) invocation.source =
      (Program.load (files path)).mapError .load := by
  unfold Invocation.inputPath?
  rw [h]
  rfl

theorem load_of_text {bytes : ByteArray} {text : String}
    (h : String.fromUTF8? bytes = some text) :
    Program.load (some bytes) = (Program.read text).mapError .program := by
  simp [Program.load, readText, h, bind, Except.bind, Except.mapError]

theorem loadSource_of_gives {s : Source} {p : Program} (hsource : invocation.source = some s)
    (h : s.Gives files p) :
    loadSource (invocation.inputPath?.bind files) invocation.source = .ok p := by
  cases h with
  | file hfile htext hread =>
    rw [loadSource_file hsource, hfile, load_of_text htext, hread]
    rfl
  | sample hprogram =>
    rw [hsource, loadSource, hprogram]
    rfl

theorem loadSource_of_loadFailure {source : Option Source} (hsource : invocation.source = source)
    (h : LoadFailure files source e) :
    loadSource (invocation.inputPath?.bind files) invocation.source = .error e := by
  cases h with
  | noSource =>
    rw [hsource]
    rfl
  | missing hfile =>
    rw [loadSource_file hsource, hfile]
    rfl
  | invalidText hfile htext =>
    rw [loadSource_file hsource, hfile]
    simp [Program.load, readText, htext, bind, Except.bind, Except.mapError]
  | program hfile htext hread =>
    rw [loadSource_file hsource, hfile, load_of_text htext, hread]
    rfl

/-! ### Rendering -/

/-- The whole text that a command asks for: a listing, or the lines of all records. -/
inductive Rendering (a : Assembly) : Command → String → Prop
  | text : Rendering a (.listing .text) a.listing
  | json : Rendering a (.listing .json) ((jsonListing a).pretty ++ "\n")
  | ihex {addressing : Hex.Addressing} {rs : List Hex.Record}
      (h : Hex.records a addressing = .ok rs) :
      Rendering a (.ihex addressing) (String.join (rs.map fun r => r.text ++ "\n"))

theorem render_of_rendering {a : Assembly} {command : Command} {text : String}
    (h : Rendering a command text) : render a command = .ok text := by
  cases h with
  | text => rfl
  | json => rfl
  | ihex hrecords =>
    rw [render, Hex.image_eq_ok hrecords]
    rfl

/-- Only records that are numbered by position can run out of numbers. -/
theorem exists_rendering {a : Assembly} {command : Command}
    (h : command = .ihex .ordinal → a.instructions.length ≤ 2 ^ 16) :
    ∃ text, Rendering a command text := by
  cases command with
  | listing format =>
    cases format with
    | text => exact ⟨_, .text⟩
    | json => exact ⟨_, .json⟩
  | ihex addressing =>
    cases addressing with
    | ordinal => exact ⟨_, .ihex (Hex.records_ordinal_of_le (h rfl))⟩
    | absolute => exact ⟨_, .ihex (Hex.records_absolute a)⟩

theorem render_ordinal_of_lt {a : Assembly} (h : 2 ^ 16 < a.instructions.length) :
    render a (.ihex .ordinal) = .error (.hex ⟨2 ^ 16⟩) := by
  rw [render, Hex.image_eq_error_iff.mpr (Hex.records_ordinal_of_lt h)]
  rfl

/-! ### Whole runs -/

/-- All steps of the invocation can be taken: a source is given and gives the program, the origin is
an address, the program can be assembled there, and records that are numbered by position have
numbers enough. -/
structure Invocation.Completes (files : String → Option ByteArray) (invocation : Invocation)
    (p : Program) (origin : Word) (a : Assembly) : Prop where
  loaded : ∃ s, invocation.source = some s ∧ s.Gives files p
  placed : Text.IsAddress invocation.origin origin.toNat
  assembled : assemble p origin = .ok a
  numbered : invocation.command = .ihex .ordinal → p.entries.length ≤ 2 ^ 16

/-- The error of the first step of the invocation that cannot be taken: the steps before it can be,
and nothing is said of the steps behind it. -/
inductive Invocation.FirstFailure (files : String → Option ByteArray) (invocation : Invocation) :
    RunError → Prop
  | load {e : RunError} (h : LoadFailure files invocation.source e) :
      FirstFailure files invocation e
  | origin {s : Source} {p : Program} {cause : Text.NumeralError}
      (hsource : invocation.source = some s) (hgives : s.Gives files p)
      (h : Text.readAddress invocation.origin = .error cause) :
      FirstFailure files invocation (.origin cause)
  | assembly {s : Source} {p : Program} {origin : Word} {cause : AssemblyError}
      (hsource : invocation.source = some s) (hgives : s.Gives files p)
      (hplaced : Text.IsAddress invocation.origin origin.toNat)
      (h : assemble p origin = .error cause) : FirstFailure files invocation (.assembly cause)
  | render {s : Source} {p : Program} {origin : Word} {a : Assembly}
      (hsource : invocation.source = some s) (hgives : s.Gives files p)
      (hplaced : Text.IsAddress invocation.origin origin.toNat) (ha : assemble p origin = .ok a)
      (hcommand : invocation.command = .ihex .ordinal) (h : 2 ^ 16 < p.entries.length) :
      FirstFailure files invocation (.hex ⟨2 ^ 16⟩)

/-- Step by step: every step can be taken, or one of them is the first that cannot. -/
theorem completes_or_firstFailure (files : String → Option ByteArray) (invocation : Invocation) :
    (∃ p origin a, invocation.Completes files p origin a) ∨
      ∃ e, invocation.FirstFailure files e := by
  rcases gives_or_loadFailure files invocation.source with ⟨s, p, hsource, hgives⟩ | ⟨e, he⟩
  · cases hread : Text.readAddress invocation.origin with
    | error cause => exact .inr ⟨_, .origin hsource hgives hread⟩
    | ok origin =>
      have hplaced := Text.readAddress_eq_ok_iff.mp hread
      cases ha : assemble p origin with
      | error cause => exact .inr ⟨_, .assembly hsource hgives hplaced ha⟩
      | ok a =>
        by_cases hnumbered : invocation.command = .ihex .ordinal → p.entries.length ≤ 2 ^ 16
        · exact .inl ⟨p, origin, a, ⟨s, hsource, hgives⟩, hplaced, ha, hnumbered⟩
        · obtain ⟨hcommand, hlong⟩ := Classical.not_imp.mp hnumbered
          exact .inr ⟨_, .render hsource hgives hplaced ha hcommand (Nat.lt_of_not_le hlong)⟩
  · exact .inr ⟨e, .load he⟩

theorem run_of_completes {p : Program} {origin : Word} {a : Assembly}
    (h : invocation.Completes files p origin a) :
    ∃ text, Rendering a invocation.command text ∧
      run (invocation.inputPath?.bind files) invocation = .ok ⟨text, invocation.out⟩ := by
  obtain ⟨s, hsource, hgives⟩ := h.loaded
  have hlength := length_instructions_of_assemble h.assembled
  obtain ⟨text, htext⟩ := exists_rendering (a := a) (hlength ▸ h.numbered)
  exact ⟨text, htext, run_of_render (loadSource_of_gives hsource hgives)
    (Text.readAddress_eq_ok_iff.mpr h.placed) h.assembled (render_of_rendering htext)⟩

/-- The steps before the failure are taken, and the failure ends the run. -/
theorem run_of_firstFailure (h : invocation.FirstFailure files e) :
    run (invocation.inputPath?.bind files) invocation = .error e := by
  unfold run
  cases h with
  | load hload =>
    rw [loadSource_of_loadFailure rfl hload]
    rfl
  | origin hsource hgives horigin =>
    rw [loadSource_of_gives hsource hgives, horigin]
    rfl
  | assembly hsource hgives hplaced hassembly =>
    rw [loadSource_of_gives hsource hgives, Text.readAddress_eq_ok_iff.mpr hplaced]
    simp [bind, Except.bind, Except.mapError, hassembly]
  | render hsource hgives hplaced ha hcommand hlong =>
    rw [← length_instructions_of_assemble ha] at hlong
    rw [loadSource_of_gives hsource hgives, Text.readAddress_eq_ok_iff.mpr hplaced, hcommand]
    simp [bind, Except.bind, Except.mapError, ha, render_ordinal_of_lt hlong]

theorem outcome_of_firstFailure {args : List String} (hparsed : parse? args = some invocation)
    (h : invocation.FirstFailure files e) : outcome files args = ⟨1, "", none, some e⟩ := by
  unfold outcome
  rw [hparsed]
  simp only [run_of_firstFailure h, Outcome.ofRun]

/-- A run that completes leaves its whole text, in the file if one is named. -/
theorem outcome_of_completes {args : List String} (hparsed : parse? args = some invocation)
    {p : Program} {origin : Word} {a : Assembly} (h : invocation.Completes files p origin a) :
    ∃ text, Rendering a invocation.command text ∧
      (invocation.out = none → outcome files args = ⟨0, text, none, none⟩) ∧
      ∀ path, invocation.out = some path →
        outcome files args = ⟨0, "", some (path, text), none⟩ := by
  obtain ⟨text, htext, hrun⟩ := run_of_completes h
  have houtcome : outcome files args = .ofRun (.ok ⟨text, invocation.out⟩) := by
    unfold outcome
    rw [hparsed]
    exact congrArg Outcome.ofRun hrun
  refine ⟨text, htext, ?_, ?_⟩
  · intro hout
    rw [houtcome, hout]
    rfl
  · intro path hout
    rw [houtcome, hout]
    rfl

/-- The command line is all or nothing. On arguments that are understood, the exit code is 0 exactly
if every step can be taken: a source is given and loads, the origin is an address of 32 bits, the
program can be assembled, and if its records are to be numbered by position it has at most 2 ^ 16
instructions. Then the whole text goes to the output file alone if one is named, and else to the
standard output alone. Otherwise the exit code is 1, there is neither output nor a file, and the
error is that of the first step that fails. -/
theorem outcome_all_or_nothing (files : String → Option ByteArray) {args : List String}
    {invocation : Invocation} (hparsed : parse? args = some invocation) :
    ((outcome files args).code = 0 ↔ ∃ p origin a, invocation.Completes files p origin a) ∧
    (∀ p origin a, invocation.Completes files p origin a →
      ∃ text, Rendering a invocation.command text ∧
        (invocation.out = none → outcome files args = ⟨0, text, none, none⟩) ∧
        ∀ path, invocation.out = some path →
          outcome files args = ⟨0, "", some (path, text), none⟩) ∧
    ((¬ ∃ p origin a, invocation.Completes files p origin a) →
      ∃ e, invocation.FirstFailure files e) ∧
    ∀ e, invocation.FirstFailure files e ↔ outcome files args = ⟨1, "", none, some e⟩ := by
  have hcode : (∃ p origin a, invocation.Completes files p origin a) →
      (outcome files args).code = 0 := by
    intro ⟨p, origin, a, h⟩
    obtain ⟨text, -, hprinted, hwritten⟩ := outcome_of_completes hparsed h
    cases hout : invocation.out with
    | none => rw [hprinted hout]
    | some path => rw [hwritten path hout]
  refine ⟨⟨?_, hcode⟩, fun p origin a h => outcome_of_completes hparsed h, ?_, ?_⟩
  · intro hzero
    rcases completes_or_firstFailure files invocation with h | ⟨e, he⟩
    · exact h
    · rw [outcome_of_firstFailure hparsed he] at hzero
      cases hzero
  · exact (completes_or_firstFailure files invocation).resolve_left
  · intro e
    refine ⟨outcome_of_firstFailure hparsed, ?_⟩
    intro houtcome
    rcases completes_or_firstFailure files invocation with h | ⟨e', he'⟩
    · have hzero := hcode h
      rw [houtcome] at hzero
      cases hzero
    · -- a run has one outcome, so this is its first failure
      rw [outcome_of_firstFailure hparsed he'] at houtcome
      cases houtcome
      exact he'

/-- The image of the display sample is written to a file. A file that is missing is reported even if
the origin is no address either. -/
theorem outcome_of_image_and_of_missing_file :
    (∃ p a text, Sample.sevenSegment.program = .ok p ∧ assemble p 0x10000000#32 = .ok a ∧
      Rendering a (.ihex .ordinal) text ∧
      outcome (fun _ => none) ["--demo", "seven-segment", "ihex", "--out", "o.hex"] =
        ⟨0, "", some ("o.hex", text), none⟩) ∧
    outcome (fun _ => none) ["--input", "p.json", "--origin", "none", "ihex", "--out", "o.hex"] =
      ⟨1, "", none, some (.load (.read .missing))⟩ := by
  have hsample : parse? ["--demo", "seven-segment", "ihex", "--out", "o.hex"] =
      some ⟨some (.sample .sevenSegment), "0x10000000", .ihex .ordinal, some "o.hex"⟩ := rfl
  have hfile : parse? ["--input", "p.json", "--origin", "none", "ihex", "--out", "o.hex"] =
      some ⟨some (.file "p.json"), "none", .ihex .ordinal, some "o.hex"⟩ := rfl
  obtain ⟨p, a, hprogram, hassemble, hshort⟩ : ∃ p a, Sample.sevenSegment.program = .ok p ∧
      assemble p 0x10000000#32 = .ok a ∧ p.entries.length ≤ 2 ^ 16 :=
    ⟨_, _, rfl, rfl, by decide⟩
  obtain ⟨-, hcompletes, -, -⟩ := outcome_all_or_nothing (fun _ => none) hsample
  obtain ⟨-, -, -, hfails⟩ := outcome_all_or_nothing (fun _ => none) hfile
  obtain ⟨text, htext, -, hwritten⟩ := hcompletes p 0x10000000#32 a
    ⟨⟨_, rfl, .sample hprogram⟩, Text.readAddress_eq_ok_iff.mp rfl, hassemble, fun _ => hshort⟩
  exact ⟨⟨p, a, text, hprogram, hassemble, htext, hwritten _ rfl⟩,
    (hfails _).mp (.load (.missing rfl))⟩

end CommandLine

end Rv32Asm

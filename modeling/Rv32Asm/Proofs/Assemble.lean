import Mathlib
import Rv32Asm.Proofs.FirstPass
import Rv32Asm.Proofs.Resolution

/-!
# Two-pass assembly

Assembly succeeds exactly on the programs that are `Assemblable`, a property of the program and its
origin that does not mention the passes, and gives one instruction for each entry: the entry
itself, or the branch or jump over the distance between the entry and the label that it names
(`Realizes`).
-/

namespace Rv32Asm

/-! ### The specification -/

namespace Program

/-- Every item, labels included, lies within the address space. -/
def Fits (p : Program) (origin : Word) : Prop :=
  ∀ j, j < p.length → p.addressAt origin.toNat j < 2 ^ 32

/-- No label is declared twice. -/
def Distinct (p : Program) : Prop :=
  ∀ (j l : Nat) name, p[j]? = some (.label name) → p[l]? = some (.label name) → j = l

/-- The program can be assembled at `origin`. -/
structure Assemblable (p : Program) (origin : Word) : Prop where
  /-- The origin is a multiple of four. -/
  aligned : origin.toNat % 4 = 0
  fits : p.Fits origin
  distinct : p.Distinct
  /-- Every reference names a label that is declared and in reach. -/
  resolvable : ∀ (j : Nat) ref, p[j]? = some (.entry (.pending ref)) →
    ∃ l : Nat, p[l]? = some (.label ref.label) ∧
      ref.InReach ((p.addressAt origin.toNat l : Int) - p.addressAt origin.toNat j)

/-- The instruction is what the entry at index `j` stands for. -/
def Realizes (p : Program) (origin : Word) (j : Nat) (e : Entry) (inst : Instruction) : Prop :=
  match e with
  | .concrete given => inst = given
  | .pending ref => ∃ l : Nat, p[l]? = some (.label ref.label) ∧
      ref.IsResolved ((p.addressAt origin.toNat l : Int) - p.addressAt origin.toNat j) inst

end Program

/-! ### The first pass from the start -/

/-- The walk of the first pass before the first item. -/
def Walk.start (origin : Word) : Walk := ⟨origin.toNat, .empty, #[], none⟩

theorem Walk.counter_before (p : Program) (origin : Word) (j : Nat) :
    ((p.take j).foldl advance (start origin)).counter = p.addressAt origin.toNat j := by
  rw [foldl_advance]
  rfl

theorem Walk.labels_before (p : Program) (origin : Word) (j : Nat) :
    ((p.take j).foldl advance (start origin)).labels =
      ⟨Program.bindings (p.take j) origin.toNat⟩ := by
  rw [foldl_advance]
  rfl

/-- The labels that the table lacks in front of index `j` are not declared there. -/
theorem Walk.get?_before_eq_none_iff {p : Program} {origin : Word} {j : Nat} {name : String} :
    ((p.take j).foldl advance (start origin)).labels.get? name = none ↔
      ∀ l < j, p[l]? ≠ some (.label name) := by
  rw [labels_before]
  change ((Program.bindings (p.take j) origin.toNat).lookup name = none) ↔ _
  rw [Program.lookup_bindings_eq_none_iff]
  constructor
  · intro h l hl
    have := h l
    rwa [List.getElem?_take_of_lt hl] at this
  · intro h l hl
    by_cases hlj : l < j
    · rw [List.getElem?_take_of_lt hlj] at hl
      exact h l hlj hl
    · rw [List.getElem?_take_eq_none (by omega)] at hl
      cases hl

theorem Walk.allClear_start_iff (p : Program) (origin : Word) :
    (Walk.start origin).AllClear p ↔ p.Fits origin ∧ p.Distinct := by
  have hcount : addressCount = 2 ^ 32 := rfl
  constructor
  · intro h
    refine ⟨?_, ?_⟩
    · intro j hj
      have hclear := (h j p[j] (List.getElem?_eq_getElem hj)).1
      rwa [counter_before, hcount] at hclear
    · intro j l name hj hl
      have hfreshj := get?_before_eq_none_iff.mp ((h j _ hj).2 name rfl)
      have hfreshl := get?_before_eq_none_iff.mp ((h l _ hl).2 name rfl)
      rcases Nat.lt_trichotomy j l with hlt | heq | hgt
      · exact absurd hj (hfreshl j hlt)
      · exact heq
      · exact absurd hl (hfreshj l hgt)
  · rintro ⟨hfits, hdistinct⟩ j item hj
    refine ⟨?_, ?_⟩
    · rw [counter_before, hcount]
      exact hfits j (List.getElem?_eq_some_iff.mp hj).1
    · rintro name rfl
      rw [get?_before_eq_none_iff]
      intro l hl hsame
      have := hdistinct j l name hj hsame
      omega

/-! ### Both passes -/

theorem new_eq_ok_iff {p : Program} {origin : Word} {a : Assembler} :
    Assembler.new p origin = .ok a ↔ origin.toNat % 4 = 0 ∧ a = ⟨p, origin, .empty, #[]⟩ := by
  unfold Assembler.new
  by_cases h : origin.toNat % 4 = 0
  · simp [h, eq_comm]
  · simp [h]

theorem pass1_eq_ok_iff (a : Assembler) :
    a.pass1.2 = .ok () ↔ (⟨a.origin.toNat, a.labels, a.pcs, none⟩ : Walk).AllClear a.program := by
  rw [← Walk.failure_foldl_step_eq_none_iff rfl]
  unfold Assembler.pass1
  cases h : (a.program.foldl Walk.step ⟨a.origin.toNat, a.labels, a.pcs, none⟩).failure with
  | none => simp [h]
  | some e => simp [h]

/-- What a first pass that succeeds has recorded. -/
theorem pass1_fst {a : Assembler} (h : a.pass1.2 = .ok ()) :
    a.pass1.1 =
      { a with
        labels := ⟨a.labels.entries ++ a.program.bindings a.origin.toNat⟩
        pcs := a.pcs ++ ((a.program.placedEntries a.origin.toNat).map Prod.snd).toArray } := by
  have hclear := (pass1_eq_ok_iff a).mp h
  unfold Assembler.pass1
  simp only [Walk.foldl_step_of_allClear rfl hclear, Walk.foldl_advance]

theorem placed_eq {a : Assembler} (start : Nat)
    (hpcs : a.pcs.toList = (a.program.placedEntries start).map Prod.snd) :
    a.placed = a.program.placedEntries start := by
  unfold Assembler.placed
  rw [hpcs, ← Program.map_fst_placedEntries a.program start, List.zip_map']
  simp

/-- The second pass of an assembler that has recorded one address for each entry. -/
theorem pass2_eq_ok_iff {a : Assembler} {start : Nat} {insts : List Instruction}
    (hpcs : a.pcs.toList = (a.program.placedEntries start).map Prod.snd) :
    a.pass2 = .ok insts ↔
      List.Forall₂ (fun placed inst => placed.1.resolve a.labels placed.2 = .ok inst)
        (a.program.placedEntries start) insts := by
  unfold Assembler.pass2
  rw [placed_eq start hpcs, mapM_eq_ok_iff]

theorem assemble_eq (p : Program) (origin : Word) :
    assemble p origin =
      (do
        let fresh ← Assembler.new p origin
        fresh.pass1.2
        return ⟨origin, ← fresh.pass1.1.pass2⟩) := rfl

/-- Assembly as the two passes see it: no obstacle on the walk, and every placed entry resolved
against the finished table. -/
theorem assemble_eq_ok_iff {p : Program} {origin : Word} {a : Assembly} :
    assemble p origin = .ok a ↔
      origin.toNat % 4 = 0 ∧ (Walk.start origin).AllClear p ∧ a.origin = origin ∧
        List.Forall₂
          (fun placed inst => placed.1.resolve ⟨p.bindings origin.toNat⟩ placed.2 = .ok inst)
          (p.placedEntries origin.toNat) a.instructions := by
  rw [assemble_eq, bind_eq_ok]
  constructor
  · rintro ⟨fresh, hnew, h⟩
    obtain ⟨haligned, rfl⟩ := new_eq_ok_iff.mp hnew
    obtain ⟨_, hpass1, h⟩ := bind_eq_ok.mp h
    obtain ⟨insts, hpass2, h⟩ := bind_eq_ok.mp h
    cases h
    rw [pass1_fst hpass1] at hpass2
    exact ⟨haligned, (pass1_eq_ok_iff _).mp hpass1, rfl, (pass2_eq_ok_iff (by simp)).mp hpass2⟩
  · rintro ⟨haligned, hclear, rfl, hresolved⟩
    have hpass1 := (pass1_eq_ok_iff ⟨p, a.origin, .empty, #[]⟩).mpr hclear
    refine ⟨_, new_eq_ok_iff.mpr ⟨haligned, rfl⟩, bind_eq_ok.mpr ⟨(), hpass1, ?_⟩⟩
    refine bind_eq_ok.mpr ⟨a.instructions, ?_, rfl⟩
    rw [pass1_fst hpass1]
    exact (pass2_eq_ok_iff (by simp)).mpr hresolved

/-! ### Labels and references of the whole program -/

namespace Program

variable {p : Program} {origin : Word}

/-- Within the address space no address wraps. -/
theorem toNat_addressAt {j : Nat} {item : Item} (hfits : p.Fits origin)
    (h : p[j]? = some item) :
    (BitVec.ofNat 32 (p.addressAt origin.toNat j)).toNat = p.addressAt origin.toNat j := by
  have hlt := hfits j (List.getElem?_eq_some_iff.mp h).1
  rw [BitVec.toNat_ofNat, Nat.mod_eq_of_lt hlt]

/-- A program that lies within the address space ends there. -/
theorem end_le_of_fits (haligned : origin.toNat % 4 = 0) (hfits : p.Fits origin) :
    origin.toNat + 4 * p.entries.length ≤ 2 ^ 32 := by
  rw [← length_placedEntries p origin.toNat]
  cases hlast : (p.placedEntries origin.toNat).length with
  | zero => omega
  | succ n =>
    -- the last entry lies within the address space, and so does the word that starts there
    have hn : n < (p.placedEntries origin.toNat).length := by omega
    obtain ⟨j, hj, hbefore, -⟩ := exists_of_getElem?_placedEntries (List.getElem?_eq_getElem hn)
    have hlt := hfits j (List.getElem?_eq_some_iff.mp hj).1
    unfold addressAt at hlt
    omega

/-- Whatever the origin, two items lie a multiple of four apart. -/
theorem even_offset (p : Program) (start j l : Nat) :
    ((p.addressAt start l : Int) - p.addressAt start j) % 2 = 0 := by
  unfold addressAt
  omega

theorem get?_bindings {l : Nat} {name : String} (start : Nat) (hdistinct : p.Distinct)
    (h : p[l]? = some (.label name)) :
    LabelTable.get? ⟨p.bindings start⟩ name = some (BitVec.ofNat 32 (p.addressAt start l)) := by
  refine lookup_bindings_eq_some_iff.mpr ⟨l, h, ?_, rfl⟩
  intro k hk hsame
  have heq := hdistinct k l name hsame h
  omega

/-- A reference resolves exactly if its label is declared somewhere in reach. -/
theorem exists_resolve_pending_iff {j : Nat} {ref : Reference}
    (hfits : p.Fits origin) (hdistinct : p.Distinct)
    (h : p[j]? = some (.entry (.pending ref))) :
    (∃ inst, ref.resolve ⟨p.bindings origin.toNat⟩
        (BitVec.ofNat 32 (p.addressAt origin.toNat j)) = .ok inst) ↔
      ∃ l : Nat, p[l]? = some (.label ref.label) ∧
        ref.InReach ((p.addressAt origin.toNat l : Int) - p.addressAt origin.toNat j) := by
  by_cases hdeclared : ∃ l : Nat, p[l]? = some (.label ref.label)
  · obtain ⟨l, hl⟩ := hdeclared
    have hget := get?_bindings origin.toNat hdistinct hl
    rw [Reference.exists_resolve_iff hget, toNat_addressAt hfits h, toNat_addressAt hfits hl]
    constructor
    · rintro ⟨-, hreach⟩
      exact ⟨l, hl, hreach⟩
    · rintro ⟨l', hl', hreach⟩
      obtain rfl := hdistinct l' l _ hl' hl
      exact ⟨even_offset p _ j l', hreach⟩
  · have hnowhere : ∀ l : Nat, p[l]? ≠ some (.label ref.label) := by
      intro l hl
      exact hdeclared ⟨l, hl⟩
    have hget : LabelTable.get? ⟨p.bindings origin.toNat⟩ ref.label = none :=
      lookup_bindings_eq_none_iff.mpr hnowhere
    rw [Reference.resolve_of_get?_eq_none hget]
    constructor
    · rintro ⟨inst, hinst⟩
      cases hinst
    · rintro ⟨l, hl, -⟩
      exact absurd hl (hnowhere l)

/-- What an entry resolves to is what it stands for. -/
theorem realizes_of_resolve {j : Nat} {e : Entry} {inst : Instruction}
    (hfits : p.Fits origin) (h : p[j]? = some (.entry e))
    (hresolve : e.resolve ⟨p.bindings origin.toNat⟩
      (BitVec.ofNat 32 (p.addressAt origin.toNat j)) = .ok inst) :
    p.Realizes origin j e inst := by
  cases e with
  | concrete given =>
    cases hresolve
    rfl
  | pending ref =>
    replace hresolve : ref.resolve _ _ = .ok inst := hresolve
    cases hget : LabelTable.get? ⟨p.bindings origin.toNat⟩ ref.label with
    | none =>
      rw [Reference.resolve_of_get?_eq_none hget] at hresolve
      cases hresolve
    | some target =>
      have hresolved := Reference.isResolved_of_resolve hget hresolve
      obtain ⟨l, hl, -, rfl⟩ := lookup_bindings_eq_some_iff.mp hget
      rw [toNat_addressAt hfits h, toNat_addressAt hfits hl] at hresolved
      exact ⟨l, hl, hresolved⟩

end Program

/-! ### Assembly meets its specification -/

/-- Assembly succeeds exactly on the programs that can be assembled. -/
theorem exists_assemble_iff (p : Program) (origin : Word) :
    (∃ a, assemble p origin = .ok a) ↔ p.Assemblable origin := by
  constructor
  · rintro ⟨a, ha⟩
    obtain ⟨haligned, hclear, -, hresolved⟩ := assemble_eq_ok_iff.mp ha
    obtain ⟨hfits, hdistinct⟩ := (Walk.allClear_start_iff p origin).mp hclear
    refine ⟨haligned, hfits, hdistinct, ?_⟩
    intro j ref hj
    have hplaced := List.mem_of_getElem? (Program.getElem?_placedEntries origin.toNat hj)
    have hok := exists_forall₂_iff.mp ⟨_, hresolved⟩ _ hplaced
    exact (Program.exists_resolve_pending_iff hfits hdistinct hj).mp hok
  · rintro ⟨haligned, hfits, hdistinct, hresolvable⟩
    have hclear := (Walk.allClear_start_iff p origin).mpr ⟨hfits, hdistinct⟩
    suffices hresolved : ∀ placed ∈ p.placedEntries origin.toNat, ∃ inst,
        placed.1.resolve ⟨p.bindings origin.toNat⟩ placed.2 = .ok inst by
      obtain ⟨insts, hinsts⟩ := exists_forall₂_iff.mpr hresolved
      exact ⟨⟨origin, insts⟩, assemble_eq_ok_iff.mpr ⟨haligned, hclear, rfl, hinsts⟩⟩
    rintro ⟨e, pc⟩ hmem
    obtain ⟨i, hi⟩ := List.mem_iff_getElem?.mp hmem
    obtain ⟨j, hj, -, rfl⟩ := Program.exists_of_getElem?_placedEntries hi
    cases e with
    | concrete given => exact ⟨given, rfl⟩
    | pending ref =>
      exact (Program.exists_resolve_pending_iff hfits hdistinct hj).mpr (hresolvable j ref hj)

theorem Assembly.getElem?_placed (a : Assembly) (i : Nat) :
    a.placed[i]? = a.instructions[i]?.map fun inst =>
      (a.origin + BitVec.ofNat 32 (4 * i), inst) := by
  unfold Assembly.placed
  rw [List.getElem?_map, List.getElem?_zipIdx, Option.map_map]
  simp [Function.comp_def]

/-- The addresses do not wrap as long as the instructions end within the address space. -/
theorem Assembly.toNat_address {a : Assembly} {i : Nat}
    (hend : a.origin.toNat + 4 * a.instructions.length ≤ 2 ^ 32)
    (hi : i < a.instructions.length) :
    (a.origin + BitVec.ofNat 32 (4 * i)).toNat = a.origin.toNat + 4 * i := by
  rw [BitVec.toNat_add, BitVec.toNat_ofNat]
  omega

/-- The instruction of the entry at index `j`, and where it stands. -/
theorem getElem?_of_assemble {p : Program} {origin : Word} {a : Assembly} {j : Nat} {e : Entry}
    (ha : assemble p origin = .ok a) (h : p[j]? = some (.entry e)) :
    ∃ inst, a.instructions[p.entriesBefore j]? = some inst ∧
      (∃ pc, a.placed[p.entriesBefore j]? = some (pc, inst) ∧
        pc.toNat = p.addressAt origin.toNat j) ∧
      p.Realizes origin j e inst := by
  obtain ⟨-, hclear, rfl, hresolved⟩ := assemble_eq_ok_iff.mp ha
  obtain ⟨hfits, -⟩ := (Walk.allClear_start_iff p a.origin).mp hclear
  have hplaced := Program.getElem?_placedEntries a.origin.toNat h
  obtain ⟨inst, hinst, hok⟩ := getElem?_of_forall₂ hresolved hplaced
  have hpc : a.origin + BitVec.ofNat 32 (4 * p.entriesBefore j) =
      BitVec.ofNat 32 (p.addressAt a.origin.toNat j) := by
    unfold Program.addressAt
    rw [BitVec.ofNat_add, BitVec.ofNat_toNat, BitVec.setWidth_eq]
  refine ⟨inst, hinst, ⟨_, ?_, Program.toNat_addressAt hfits h⟩, ?_⟩
  · rw [Assembly.getElem?_placed, hinst, Option.map_some, hpc]
  · exact Program.realizes_of_resolve hfits h hok

/-- An assembled program has an instruction for each entry. -/
theorem length_instructions_of_assemble {p : Program} {origin : Word} {a : Assembly}
    (ha : assemble p origin = .ok a) : a.instructions.length = p.entries.length := by
  obtain ⟨-, -, -, hresolved⟩ := assemble_eq_ok_iff.mp ha
  rw [← hresolved.length_eq, Program.length_placedEntries]

/-- An assembled program starts at a multiple of four and ends within the address space. -/
theorem assemble_within {p : Program} {origin : Word} {a : Assembly}
    (ha : assemble p origin = .ok a) :
    a.origin = origin ∧ a.origin.toNat % 4 = 0 ∧
      a.origin.toNat + 4 * a.instructions.length ≤ 2 ^ 32 := by
  obtain ⟨haligned, hclear, rfl, -⟩ := assemble_eq_ok_iff.mp ha
  obtain ⟨hfits, -⟩ := (Walk.allClear_start_iff p a.origin).mp hclear
  refine ⟨rfl, haligned, ?_⟩
  rw [length_instructions_of_assemble ha]
  exact Program.end_le_of_fits haligned hfits

/-- Two-pass assembly meets its specification: it succeeds exactly on the programs that can be
assembled, and then gives one instruction for each entry, in order, at the address of the entry and
as the entry asks for. -/
theorem assemble_meets_specification (p : Program) (origin : Word) :
    ((∃ a, assemble p origin = .ok a) ↔ p.Assemblable origin) ∧
      ∀ a, assemble p origin = .ok a →
        a.origin = origin ∧ a.instructions.length = p.entries.length ∧
        ∀ (j : Nat) (e : Entry), p[j]? = some (.entry e) →
          ∃ inst, a.instructions[p.entriesBefore j]? = some inst ∧
            (∃ pc, a.placed[p.entriesBefore j]? = some (pc, inst) ∧
              pc.toNat = p.addressAt origin.toNat j) ∧
            p.Realizes origin j e inst := by
  refine ⟨exists_assemble_iff p origin, ?_⟩
  intro a ha
  obtain ⟨-, -, horigin, hresolved⟩ := assemble_eq_ok_iff.mp ha
  refine ⟨horigin, ?_, fun j e h => getElem?_of_assemble ha h⟩
  rw [← hresolved.length_eq, ← Program.map_fst_placedEntries p origin.toNat, List.length_map]

end Rv32Asm

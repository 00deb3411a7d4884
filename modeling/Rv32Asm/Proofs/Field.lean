import Mathlib
import Rv32Asm.Field

/-!
# What the fields of a word can hold

Packing a number succeeds exactly on the numbers that the field can hold, and the packed bits are
the two's complement or the binary form of the number. A computation that can fail is opened with
`bind_eq_ok` and `map_eq_ok`.
-/

namespace Rv32Asm

/-! ### Computations that can fail -/

theorem bind_eq_ok {ε α β : Type} {x : Except ε α} {f : α → Except ε β} {b : β} :
    (x >>= f) = .ok b ↔ ∃ a, x = .ok a ∧ f a = .ok b := by
  cases x with
  | error e => simp [bind, Except.bind]
  | ok a => simp [bind, Except.bind]

theorem map_eq_ok {ε α β : Type} {x : Except ε α} {f : α → β} {b : β} :
    (f <$> x) = .ok b ↔ ∃ a, x = .ok a ∧ f a = b := by
  cases x with
  | error e => simp [Functor.map, Except.map]
  | ok a => simp [Functor.map, Except.map]

theorem map_eq_error {ε α β : Type} {x : Except ε α} {f : α → β} {e : ε} :
    (f <$> x) = .error e ↔ x = .error e := by
  cases x with
  | error e' => simp [Functor.map, Except.map]
  | ok a => simp [Functor.map, Except.map]

theorem mapError_eq_ok {ε ε' α : Type} {x : Except ε α} {f : ε → ε'} {a : α} :
    x.mapError f = .ok a ↔ x = .ok a := by
  cases x with
  | error e => simp [Except.mapError]
  | ok a => simp [Except.mapError]

theorem mapM_eq_ok_iff {ε α β : Type} {f : α → Except ε β} {l : List α} {r : List β} :
    l.mapM f = .ok r ↔ List.Forall₂ (fun a b => f a = .ok b) l r := by
  induction l generalizing r with
  | nil =>
    rw [List.mapM_nil, List.forall₂_nil_left_iff]
    simp [pure, Except.pure, eq_comm]
  | cons a l ih =>
    rw [List.mapM_cons, bind_eq_ok, List.forall₂_cons_left_iff]
    constructor
    · rintro ⟨b, hb, h⟩
      obtain ⟨bs, hbs, hr⟩ := bind_eq_ok.mp h
      cases hr
      exact ⟨b, bs, hb, ih.mp hbs, rfl⟩
    · rintro ⟨b, bs, hb, hbs, rfl⟩
      exact ⟨b, hb, bind_eq_ok.mpr ⟨bs, ih.mpr hbs, rfl⟩⟩

/-- The error of a list is that of its first element that has one. -/
theorem mapM_eq_error_iff {ε α β : Type} {f : α → Except ε β} {l : List α} {e : ε} :
    l.mapM f = .error e ↔
      ∃ (i : Nat) (a : α), l[i]? = some a ∧ f a = .error e ∧
        ∀ k < i, ∀ a', l[k]? = some a' → ∃ b, f a' = .ok b := by
  induction l with
  | nil => simp [pure, Except.pure]
  | cons a l ih =>
    rw [List.mapM_cons]
    cases hfa : f a with
    | error e' =>
      constructor
      · intro h
        cases h
        exact ⟨0, a, rfl, hfa, fun k hk => absurd hk (Nat.not_lt_zero k)⟩
      · rintro ⟨i, a', ha', herror, hfirst⟩
        cases i with
        | zero =>
          cases ha'
          rw [hfa] at herror
          cases herror
          rfl
        | succ i =>
          obtain ⟨b, hb⟩ := hfirst 0 (Nat.succ_pos i) a rfl
          rw [hfa] at hb
          cases hb
    | ok b =>
      have htail : (do let b' ← Except.ok b; let bs ← l.mapM f; pure (b' :: bs)) = .error e ↔
          l.mapM f = .error e := by
        cases hl : l.mapM f with
        | error e' => simp [bind, Except.bind]
        | ok bs => simp [bind, Except.bind, pure, Except.pure]
      rw [htail, ih]
      constructor
      · rintro ⟨i, a', ha', herror, hfirst⟩
        refine ⟨i + 1, a', ha', herror, ?_⟩
        intro k hk a'' ha''
        cases k with
        | zero =>
          cases ha''
          exact ⟨b, hfa⟩
        | succ k => exact hfirst k (by omega) a'' ha''
      · rintro ⟨i, a', ha', herror, hfirst⟩
        cases i with
        | zero =>
          cases ha'
          rw [hfa] at herror
          cases herror
        | succ i =>
          exact ⟨i, a', ha', herror, fun k hk a'' ha'' => hfirst (k + 1) (by omega) a'' ha''⟩

/-- A list has a counterpart exactly if each of its elements has one. -/
theorem exists_forall₂_iff {α β : Type} {R : α → β → Prop} {l : List α} :
    (∃ r, List.Forall₂ R l r) ↔ ∀ a ∈ l, ∃ b, R a b := by
  induction l with
  | nil => simp
  | cons a l ih =>
    rw [List.forall_mem_cons, ← ih]
    constructor
    · rintro ⟨r, h⟩
      obtain ⟨b, bs, hb, hbs, rfl⟩ := List.forall₂_cons_left_iff.mp h
      exact ⟨⟨b, hb⟩, bs, hbs⟩
    · rintro ⟨⟨b, hb⟩, bs, hbs⟩
      exact ⟨b :: bs, .cons hb hbs⟩

theorem getElem?_of_forall₂ {α β : Type} {R : α → β → Prop} {l : List α} {r : List β} {i : Nat}
    {a : α} (h : List.Forall₂ R l r) (ha : l[i]? = some a) : ∃ b, r[i]? = some b ∧ R a b := by
  induction h generalizing i with
  | nil => simp at ha
  | cons hb _ ih =>
    cases i with
    | zero =>
      cases ha
      exact ⟨_, rfl, hb⟩
    | succ i => exact ih ha

/-- If no key is repeated, looking up a key finds its only entry. -/
theorem lookup_eq_some_iff_mem {α β : Type} [BEq α] [LawfulBEq α] {l : List (α × β)}
    (h : (l.map Prod.fst).Nodup) {key : α} {b : β} : l.lookup key = some b ↔ (key, b) ∈ l := by
  induction l with
  | nil => simp
  | cons entry l ih =>
    obtain ⟨first, c⟩ := entry
    rw [List.map_cons, List.nodup_cons] at h
    rw [List.mem_cons, Prod.mk.injEq]
    by_cases heq : key = first
    · subst heq
      have hfresh : (key, b) ∉ l := by
        intro hb
        exact h.1 (List.mem_map.mpr ⟨_, hb, rfl⟩)
      rw [List.lookup_cons_self]
      simp [hfresh, eq_comm]
    · have hbeq : (key == first) = false := by simpa using heq
      rw [List.lookup_cons, hbeq, ih h.2]
      simp [heq]

theorem lookup_eq_none_of_not_mem {α β : Type} [BEq α] [LawfulBEq α] {l : List (α × β)} {key : α}
    (h : key ∉ l.map Prod.fst) : l.lookup key = none := by
  apply List.lookup_eq_none_iff.mpr
  intro entry hentry
  rw [bne_iff_ne]
  intro hkey
  exact h (hkey ▸ List.mem_map_of_mem hentry)

theorem lookup_eq_none_iff_not_mem {α β : Type} [BEq α] [LawfulBEq α] {l : List (α × β)} {key : α} :
    l.lookup key = none ↔ key ∉ l.map Prod.fst := by
  constructor
  · intro hnone hmem
    obtain ⟨entry, hentry, hkey⟩ := List.mem_map.mp hmem
    have hne := List.lookup_eq_none_iff.mp hnone entry hentry
    exact bne_iff_ne.mp hne hkey.symm
  · exact lookup_eq_none_of_not_mem

/-! ### Numbers in fields -/

/-- The bits of a signed field are those that stand for the number. -/
theorem packSigned_eq_ok_iff {w : Nat} {value : Int} {p : BitVec w} :
    packSigned w value = .ok p ↔ p.toInt = value := by
  unfold packSigned
  constructor
  · intro h
    split at h
    · next heq =>
      cases h
      exact heq
    · cases h
  · rintro rfl
    rw [BitVec.ofInt_toInt, if_pos rfl]

theorem packSigned_of_not_exists {w : Nat} {value : Int} (h : ¬ ∃ p : BitVec w, p.toInt = value) :
    packSigned w value = .error (.signedRange value w) := by
  unfold packSigned
  exact if_neg fun heq => h ⟨_, heq⟩

/-- The bits of an unsigned field are those that stand for the number. -/
theorem packUnsigned_eq_ok_iff {w value : Nat} {p : BitVec w} :
    packUnsigned w value = .ok p ↔ p.toNat = value := by
  unfold packUnsigned
  constructor
  · intro h
    split at h
    · next heq =>
      cases h
      exact heq
    · cases h
  · rintro rfl
    rw [BitVec.ofNat_toNat, BitVec.setWidth_eq, if_pos rfl]

theorem checkAligned_eq_ok_iff {alignment : Nat} {value : Int} {u : Unit} :
    checkAligned alignment value = .ok u ↔ value % alignment = 0 := by
  unfold checkAligned
  by_cases h : value % alignment = 0
  · simp [h]
  · simp [h]

theorem packOffset_eq_ok_iff {w : Nat} {value : Int} {p : BitVec w} :
    packOffset w value = .ok p ↔ value % 2 = 0 ∧ p.toInt = value := by
  unfold packOffset
  rw [bind_eq_ok]
  constructor
  · rintro ⟨u, haligned, hpacked⟩
    exact ⟨checkAligned_eq_ok_iff.mp haligned, packSigned_eq_ok_iff.mp hpacked⟩
  · rintro ⟨heven, hpacked⟩
    exact ⟨(), checkAligned_eq_ok_iff.mpr heven, packSigned_eq_ok_iff.mpr hpacked⟩

/-- An even offset can only be refused for its range. -/
theorem packOffset_of_not_exists {w : Nat} {value : Int} (heven : value % 2 = 0)
    (h : ¬ ∃ p : BitVec w, p.toInt = value) :
    packOffset w value = .error (.signedRange value w) := by
  unfold packOffset
  rw [checkAligned_eq_ok_iff (u := ()) |>.mpr heven, packSigned_of_not_exists h]
  rfl

/-- The numbers that a signed field can hold. -/
theorem exists_toInt_eq_iff {w : Nat} (hw : 0 < w) {value : Int} :
    (∃ p : BitVec w, p.toInt = value) ↔ -2 ^ (w - 1) ≤ value ∧ value < 2 ^ (w - 1) := by
  constructor
  · rintro ⟨p, rfl⟩
    exact ⟨BitVec.le_toInt p, BitVec.toInt_lt⟩
  · rintro ⟨hlow, hhigh⟩
    exact ⟨BitVec.ofInt w value, BitVec.toInt_ofInt_eq_self hw hlow hhigh⟩

/-- Why an offset that counts in halfwords cannot be packed into `w` bits: it is odd, or else out of
range. -/
def offsetFault? (w : Nat) (offset : Int) : Option FieldError :=
  if offset % 2 ≠ 0 then some (.misaligned offset 2)
  else if -2 ^ (w - 1) ≤ offset ∧ offset < 2 ^ (w - 1) then none
  else some (.signedRange offset w)

theorem offsetFault?_eq_none_iff {w : Nat} {offset : Int} :
    offsetFault? w offset = none ↔
      offset % 2 = 0 ∧ -2 ^ (w - 1) ≤ offset ∧ offset < 2 ^ (w - 1) := by
  unfold offsetFault?
  by_cases heven : offset % 2 = 0
  · simp [heven]
  · simp [heven]

theorem offsetFault?_of_out_of_range {w : Nat} {offset : Int} (heven : offset % 2 = 0)
    (h : ¬ (-2 ^ (w - 1) ≤ offset ∧ offset < 2 ^ (w - 1))) :
    offsetFault? w offset = some (.signedRange offset w) := by
  unfold offsetFault?
  rw [if_neg (not_not.mpr heven), if_neg h]

theorem packOffset_of_odd {w : Nat} {value : Int} (h : value % 2 ≠ 0) :
    packOffset w value = .error (.misaligned value 2) := by
  have hcheck : checkAligned 2 value = .error (.misaligned value 2) := if_neg h
  unfold packOffset
  rw [hcheck]
  rfl

/-- An offset is refused for its fault. -/
theorem packOffset_of_offsetFault? {w : Nat} (hw : 0 < w) {offset : Int} {e : FieldError}
    (h : offsetFault? w offset = some e) : packOffset w offset = .error e := by
  unfold offsetFault? at h
  split at h
  · next hodd =>
    cases h
    exact packOffset_of_odd hodd
  · next heven =>
    split at h
    · cases h
    · next hrange =>
      cases h
      exact packOffset_of_not_exists (not_not.mp heven) (mt (exists_toInt_eq_iff hw).mp hrange)

/-! ### Bits of a number -/

theorem toNat_append_eq {v w : Nat} (x : BitVec v) (y : BitVec w) :
    (x ++ y).toNat = x.toNat * 2 ^ w + y.toNat := by
  rw [BitVec.toNat_append, ← Nat.shiftLeft_add_eq_or_of_lt y.isLt, Nat.shiftLeft_eq]

/-- A slice of a slice. -/
theorem extractLsb'_extractLsb' {n start len start' len' : Nat} (x : BitVec n)
    (h : start + len ≤ len') :
    (x.extractLsb' start' len').extractLsb' start len = x.extractLsb' (start' + start) len := by
  ext i hi
  have hlt : start + i < len' := by omega
  simp [hlt, Nat.add_assoc]

/-- A slice of a two's complement is the quotient and remainder of the number. -/
theorem toNat_extractLsb'_eq {w start len : Nat} (p : BitVec w) (h : start + len ≤ w) :
    ((p.extractLsb' start len).toNat : Int) = p.toInt / 2 ^ start % 2 ^ len := by
  have hpow : (2 : Int) ^ w = 2 ^ start * (2 ^ len * 2 ^ (w - start - len)) := by
    rw [← pow_add, ← pow_add]
    congr 1
    omega
  -- the number is the unsigned one up to a multiple of `2 ^ w`
  obtain ⟨k, hk⟩ : ∃ k : Int, p.toInt = p.toNat + 2 ^ w * k := by
    by_cases hneg : 2 * p.toNat < 2 ^ w
    · exact ⟨0, by rw [BitVec.toInt_eq_toNat_of_lt hneg]; simp⟩
    · refine ⟨-1, ?_⟩
      rw [BitVec.toInt_eq_toNat_cond, if_neg hneg]
      push_cast
      ring
  rw [BitVec.extractLsb'_toNat, Nat.shiftRight_eq_div_pow, hk, hpow, mul_assoc,
    Int.add_mul_ediv_left _ _ (by positivity), mul_assoc, Int.add_mul_emod_self_left]
  push_cast
  rfl

end Rv32Asm

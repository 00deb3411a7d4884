import Mathlib
import Rv32Asm.Json.Form
import Rv32Asm.Proofs.JsonToken

/-!
# JSON values read back

What it means that a reader reads a text as a value is said once, for any white space in front and
any text behind that cannot belong to it (`Reads`). Arrays and objects are then read back if their
items are, and by induction a value is read back from its text on one line (`Fits.reads_compact`)
and on several (`Fits.reads_indented`) if its numbers are integers of 64 bits and it does not nest
deeper than the reader allows.
-/

namespace Rv32Asm.Json

/-! ### White space and brackets -/

/-- The text is white space. -/
def Blank (gap : List Char) : Prop := ∀ c ∈ gap, isSpace c = true

theorem blank_nil : Blank [] := by simp [Blank]

/-- The text starts with something other than white space and a closing bracket. -/
def Opens : List Char → Prop
  | [] => False
  | c :: _ => isSpace c = false ∧ c ≠ ']' ∧ c ≠ '\x7d'

theorem ne_nil_of_opens {text : List Char} (h : Opens text) : text ≠ [] := by
  rintro rfl
  exact h

theorem opens_append {text : List Char} (h : Opens text) (rest : List Char) :
    Opens (text ++ rest) := by
  cases text with
  | nil => cases h
  | cons c text => exact h

theorem opens_intercalate (sep : List Char) {t : List Char} (h : Opens t)
    (ts : List (List Char)) : Opens (sep.intercalate (t :: ts)) := by
  cases ts with
  | nil => simpa using h
  | cons t' ts =>
    rw [List.intercalate_cons_cons, List.append_assoc]
    exact opens_append h _

/-- The character closes an array or an object. -/
def Closes (c : Char) : Prop := c = ']' ∨ c = '\x7d'

theorem skipSpace_append {gap rest : List Char} {c : Char} (hgap : Blank gap)
    (hc : isSpace c = false) : skipSpace (gap ++ c :: rest) = c :: rest := by
  simp [skipSpace, List.dropWhile_append_of_pos hgap, hc]

theorem isSpace_of_closes {c : Char} (h : Closes c) : isSpace c = false := by
  rcases h with rfl | rfl <;> rfl

theorem ends_of_closes {c : Char} (h : Closes c) (rest : List Char) : Ends (c :: rest) := by
  rcases h with rfl | rfl <;> simp [Ends]

theorem not_closes_of_opens {c close : Char} {rest : List Char} (h : Opens (c :: rest))
    (hclose : Closes close) : c ≠ close := by
  rcases hclose with rfl | rfl
  · exact h.2.1
  · exact h.2.2

theorem ends_of_isSpace {c : Char} (h : isSpace c = true) (rest : List Char) :
    Ends (c :: rest) := by
  simp only [isSpace, Bool.or_eq_true, beq_iff_eq] at h
  rcases h with ((rfl | rfl) | rfl) | rfl <;> simp [Ends]

theorem ends_blank_append {gap rest : List Char} (hgap : Blank gap) (h : Ends rest) :
    Ends (gap ++ rest) := by
  cases gap with
  | nil => exact h
  | cons c gap => exact ends_of_isSpace (hgap c List.mem_cons_self) _

/-! ### Readers -/

/-- The reader takes the text for `a`, whatever white space stands in front of it and whatever
follows that cannot belong to it. -/
structure Reads {α : Type} (reader : Reader α) (text : List Char) (a : α) : Prop where
  opens : Opens text
  read : ∀ gap rest, Blank gap → Ends rest → reader (gap ++ (text ++ rest)) = .ok (a, rest)

/-- Reading and interpreting a text. -/
theorem Reads.interpreted {α : Type} {interpret : Value → Option α} {depth : Nat}
    {text : List Char} {v : Value} {a : α} (h : Reads (value depth) text v)
    (ha : interpret v = some a) : Reads (interpreted interpret depth) text a := by
  refine ⟨h.opens, ?_⟩
  intro gap rest hgap hrest
  simp [Json.interpreted, h.read gap rest hgap hrest, ha, bind, Except.bind, pure, Except.pure]

/-- A text is read as a whole, whatever white space follows it. -/
theorem Reads.whole_append {α : Type} {reader : Reader α} {s tail : String} {a : α}
    (h : Reads reader s.toList a) (htail : Blank tail.toList) :
    whole reader (s ++ tail) = .ok a := by
  have hends : Ends (tail.toList ++ []) := ends_blank_append htail trivial
  rw [List.append_nil] at hends
  have hspace : skipSpace tail.toList = [] := by
    unfold skipSpace
    exact List.dropWhile_eq_nil_iff.mpr htail
  have hread := h.read [] tail.toList blank_nil hends
  rw [List.nil_append] at hread
  simp [Json.whole, hread, hspace, bind, Except.bind, pure, Except.pure]

theorem Reads.whole {α : Type} {reader : Reader α} {s : String} {a : α}
    (h : Reads reader s.toList a) : whole reader s = .ok a := by
  have hread : Json.whole reader (s ++ "") = .ok a := h.whole_append blank_nil
  rwa [String.append_empty] at hread

section Items

variable {α : Type} {item : Reader α} {close : Char} {gap last : List Char}

/-- The loop over items reads a text of items with commas between them, if the fuel lasts for the
closing bracket too. -/
theorem itemLoop_of_reads (hclose : Closes close) (hgap : Blank gap) (hlast : Blank last)
    {t : List Char} {a : α} (h : Reads item t a) {ts : List (List Char)} {as : List α}
    (hs : List.Forall₂ (Reads item) ts as) {fuel : List Char} (hfuel : ts.length < fuel.length)
    (before : List α) {first : List Char} (hfirst : Blank first) (rest : List Char) :
    itemLoop close item fuel before
        (first ++ ((',' :: gap).intercalate (t :: ts) ++ (last ++ close :: rest))) =
      .ok (before.reverse ++ a :: as, rest) := by
  -- The item in front is kept apart from the others: what follows it decides how the loop goes on.
  induction hs generalizing t a fuel before first with
  | nil =>
    cases fuel with
    | nil => cases hfuel
    | cons f fuel =>
      have hends := ends_blank_append hlast (ends_of_closes hclose rest)
      rw [List.intercalate_singleton, itemLoop, h.read first _ hfirst hends]
      simp [skipSpace_append hlast (isSpace_of_closes hclose)]
  | @cons t' a' ts as h' _ ih =>
    cases fuel with
    | nil => cases hfuel
    | cons f fuel =>
      have hne : ',' ≠ close := by
        rcases hclose with rfl | rfl <;> decide
      rw [List.intercalate_cons_cons, List.append_assoc, List.append_assoc, itemLoop,
        h.read first _ hfirst (by simp [Ends])]
      simp only [List.cons_append]
      rw [← List.nil_append (',' :: _), skipSpace_append blank_nil (by decide)]
      simp only [if_neg hne, if_true]
      rw [ih h' (Nat.lt_of_succ_lt_succ hfuel) (a :: before) hgap]
      simp

/-- Each separator takes up a character. -/
theorem length_le_length_intercalate (gap t : List Char) (ts : List (List Char)) :
    ts.length ≤ ((',' :: gap).intercalate (t :: ts)).length := by
  induction ts generalizing t with
  | nil => simp
  | cons t' ts ih =>
    have hle := ih t'
    simp only [List.intercalate_cons_cons, List.length_append, List.length_cons]
    omega

/-- Items between brackets are read back if each of them is. -/
theorem items_of_reads (hclose : Closes close) (hgap : Blank gap) (hlast : Blank last)
    {ts : List (List Char)} {as : List α} (h : List.Forall₂ (Reads item) ts as)
    {first : List Char} (hfirst : Blank first) (rest : List Char) :
    items close item (first ++ ((',' :: gap).intercalate ts ++ (last ++ close :: rest))) =
      .ok (as, rest) := by
  cases h with
  | nil =>
    have hspace : Blank (first ++ last) := List.forall_mem_append.mpr ⟨hfirst, hlast⟩
    rw [List.intercalate_nil, List.nil_append, ← List.append_assoc, items,
      skipSpace_append hspace (isSpace_of_closes hclose)]
    simp
  | @cons t a ts as h hs =>
    have hfuel :
        ts.length < ((',' :: gap).intercalate (t :: ts) ++ (last ++ close :: rest)).length := by
      have hle := length_le_length_intercalate gap t ts
      simp only [List.length_append, List.length_cons]
      omega
    have hread := itemLoop_of_reads hclose hgap hlast h hs hfuel [] blank_nil rest
    -- The text of the first item opens the rest, so it is not mistaken for the closing bracket.
    have hopens := opens_append (opens_intercalate (',' :: gap) h.opens ts) (last ++ close :: rest)
    obtain ⟨c, text, htext⟩ := List.exists_cons_of_ne_nil (ne_nil_of_opens hopens)
    rw [htext] at hread hopens ⊢
    rw [items, skipSpace_append hfirst hopens.1]
    simp only [if_neg (not_closes_of_opens hopens hclose)]
    exact hread

/-- A member of an object is read back if its value is. -/
theorem reads_member (name : String) {t : List Char} {a : α} (h : Reads item t a)
    (hgap : Blank gap) :
    Reads (memberWith fun _ => item) ((quoted name).toList ++ ':' :: (gap ++ t)) (name, a) := by
  rw [toList_quoted]
  refine ⟨by simp [Opens, isSpace], ?_⟩
  intro first rest hfirst hrest
  simp only [List.cons_append, List.append_assoc, List.nil_append]
  rw [memberWith, skipSpace_append hfirst (by decide)]
  simp only [stringBody_quoted, bind, Except.bind]
  rw [← List.nil_append (':' :: _), skipSpace_append blank_nil (by decide)]
  simp [h.read gap rest hgap hrest, pure, Except.pure]

end Items

/-! ### Values -/

theorem value_of_isScalar {c : Char} {gap rest : List Char} (hgap : Blank gap)
    (hspace : isSpace c = false) (harray : c ≠ '[') (hobject : c ≠ '\x7b') (depth : Nat) :
    value depth (gap ++ c :: rest) = scalar (c :: rest) := by
  cases depth with
  | zero => simp [value, skipSpace_append hgap hspace, harray, hobject]
  | succ depth => simp [value, skipSpace_append hgap hspace, harray, hobject]

/-- A value that is neither an array nor an object is read back if its text is. -/
theorem reads_of_scalar {c : Char} {cs : List Char} {v : Value} (hopens : Opens (c :: cs))
    (harray : c ≠ '[') (hobject : c ≠ '\x7b')
    (h : ∀ rest, Ends rest → scalar (c :: (cs ++ rest)) = .ok (v, rest)) (depth : Nat) :
    Reads (value depth) (c :: cs) v := by
  refine ⟨hopens, ?_⟩
  intro gap rest hgap hrest
  rw [List.cons_append, value_of_isScalar hgap hopens.1 harray hobject, h rest hrest]

theorem word_append {α : Type} (a : α) (ws rest : List Char) :
    word a ws (ws ++ rest) = .ok (a, rest) := by
  induction ws with
  | nil => rfl
  | cons w ws ih => simp [word, ih]

/-- The name of a literal is read back. -/
theorem reads_word {c : Char} {ws : List Char} {v : Value} (hopens : Opens (c :: ws))
    (harray : c ≠ '[') (hobject : c ≠ '\x7b') (h : ∀ cs, scalar (c :: cs) = word v ws cs)
    (depth : Nat) : Reads (value depth) (c :: ws) v := by
  apply reads_of_scalar hopens harray hobject
  intro rest _
  rw [h, word_append]

theorem reads_string (s : String) (depth : Nat) :
    Reads (value depth) (quoted s).toList (.string s) := by
  rw [toList_quoted]
  apply reads_of_scalar (by simp [Opens, isSpace]) (by decide) (by decide)
  intro rest _
  simp [scalar, stringBody_quoted, Functor.map, Except.map]

/-- Nothing but a number starts with a minus sign or a digit. -/
theorem ne_of_number {c x : Char} (hc : c = '-' ∨ c.isDigit = true)
    (hx : ¬ (x = '-' ∨ x.isDigit = true)) : c ≠ x := by
  rintro rfl
  exact hx hc

theorem scalar_of_number {c : Char} (hc : c = '-' ∨ c.isDigit = true) (cs : List Char) :
    scalar (c :: cs) = do
      let (literal, rest) ← scanNumber (c :: cs)
      return (← literal.value, rest) := by
  simp [scalar, ne_of_number hc, hc]

theorem reads_int {n : Int} (hlow : -2 ^ 63 ≤ n) (hhigh : n < 2 ^ 64) (depth : Nat) :
    Reads (value depth) (Text.signedDecimal n).toList (.int n) := by
  obtain ⟨c, cs, htext, hc⟩ := exists_cons_signedDecimal n
  have hscalar : ∀ rest, Ends rest → scalar (c :: (cs ++ rest)) = .ok (.int n, rest) := by
    intro rest hrest
    have hscan := scanNumber_signedDecimal n hrest
    rw [htext, List.cons_append] at hscan
    rw [scalar_of_number hc, hscan]
    simp [value_ofInt hlow hhigh, bind, Except.bind, pure, Except.pure]
  have hspace : isSpace c = false := by
    simp [isSpace, ne_of_number hc]
  rw [htext]
  exact reads_of_scalar ⟨hspace, ne_of_number hc (by decide), ne_of_number hc (by decide)⟩
    (ne_of_number hc (by decide)) (ne_of_number hc (by decide)) hscalar depth

section Nested

variable {depth : Nat} {first gap last : List Char} {ts : List (List Char)}

/-- What stands between brackets is read back if the reader goes on to its items behind the opening
bracket and makes its result of them. -/
theorem Reads.bracketed {α β : Type} {reader : Reader β} {item : Reader α} {f : List α → β}
    {opening close : Char} (hopening : Opens [opening]) (hclose : Closes close)
    (hreader : ∀ front cs, Blank front → reader (front ++ opening :: cs) =
      (fun (as, rest) => (f as, rest)) <$> items close item cs)
    (hfirst : Blank first) (hgap : Blank gap) (hlast : Blank last) {as : List α}
    (h : List.Forall₂ (Reads item) ts as) :
    Reads reader (opening :: (first ++ ((',' :: gap).intercalate ts ++ (last ++ [close]))))
      (f as) := by
  refine ⟨hopening, ?_⟩
  intro front rest hfront _
  have hitems := items_of_reads hclose hgap hlast h hfirst rest
  simp only [List.cons_append, List.append_assoc, List.nil_append, hreader front _ hfront, hitems]
  rfl

theorem reads_array (hfirst : Blank first) (hgap : Blank gap) (hlast : Blank last)
    {vs : List Value} (h : List.Forall₂ (Reads (value depth)) ts vs) :
    Reads (value (depth + 1))
      ('[' :: (first ++ ((',' :: gap).intercalate ts ++ (last ++ [']'])))) (.array vs) := by
  apply Reads.bracketed (by simp [Opens, isSpace]) (.inl rfl) ?_ hfirst hgap hlast h
  intro front cs hfront
  simp [value, skipSpace_append hfront, isSpace]

theorem reads_object (hfirst : Blank first) (hgap : Blank gap) (hlast : Blank last)
    {ms : List (String × Value)}
    (h : List.Forall₂ (Reads (memberWith fun _ => value depth)) ts ms) :
    Reads (value (depth + 1))
      ('\x7b' :: (first ++ ((',' :: gap).intercalate ts ++ (last ++ ['\x7d'])))) (.object ms) := by
  apply Reads.bracketed (by simp [Opens, isSpace]) (.inr rfl) ?_ hfirst hgap hlast h
  intro front cs hfront
  simp [value, skipSpace_append hfront, isSpace]

/-- An array is read back item by item if each item is read back and interpreted. -/
theorem reads_interpretedArray {α : Type} {interpret : Value → Option α} (hfirst : Blank first)
    (hgap : Blank gap) (hlast : Blank last) {as : List α}
    (h : List.Forall₂ (Reads (interpreted interpret (maxDepth - 1))) ts as) :
    Reads (interpretedArray interpret)
      ('[' :: (first ++ ((',' :: gap).intercalate ts ++ (last ++ [']'])))) as := by
  apply Reads.bracketed (f := id) (by simp [Opens, isSpace]) (.inl rfl) ?_ hfirst hgap hlast h
  intro front cs hfront
  simp [interpretedArray, skipSpace_append hfront, isSpace]

end Nested

/-! ### Values on one line -/

/-- The numbers of the value are integers that fit in 64 bits, signed or unsigned, and it nests at
most `depth` deep. -/
inductive Fits : Nat → Value → Prop
  | null (depth : Nat) : Fits depth .null
  | bool (depth : Nat) (b : Bool) : Fits depth (.bool b)
  | int (depth : Nat) {n : Int} (hlow : -2 ^ 63 ≤ n) (hhigh : n < 2 ^ 64) : Fits depth (.int n)
  | string (depth : Nat) (s : String) : Fits depth (.string s)
  | array {depth : Nat} {vs : List Value} (h : ∀ v ∈ vs, Fits depth v) :
    Fits (depth + 1) (.array vs)
  | object {depth : Nat} {ms : List (String × Value)} (h : ∀ m ∈ ms, Fits depth m.2) :
    Fits (depth + 1) (.object ms)

theorem compactItems_eq_map (vs : List Value) : compactItems vs = vs.map Value.compact := by
  induction vs with
  | nil => simp [compactItems]
  | cons v vs ih => simp [compactItems, ih]

theorem compactMembers_eq_map (ms : List (String × Value)) :
    compactMembers ms = ms.map fun m => quoted m.1 ++ ":" ++ m.2.compact := by
  induction ms with
  | nil => simp [compactMembers]
  | cons m ms ih =>
    obtain ⟨name, v⟩ := m
    simp [compactMembers, ih]

theorem toList_compact_array (vs : List Value) :
    (Value.array vs).compact.toList =
      '[' :: ([','].intercalate (vs.map fun v => v.compact.toList) ++ [']']) := by
  simp [Value.compact, compactItems_eq_map, String.toList_intercalate, Function.comp_def]

theorem toList_compact_object (ms : List (String × Value)) :
    (Value.object ms).compact.toList =
      '\x7b' :: ([','].intercalate
        (ms.map fun m => (quoted m.1).toList ++ ':' :: m.2.compact.toList) ++ ['\x7d']) := by
  simp [Value.compact, compactMembers_eq_map, String.toList_intercalate, Function.comp_def]

/-- A value is read back from its text on one line. -/
theorem Fits.reads_compact {depth : Nat} {v : Value} (h : Fits depth v) :
    Reads (value depth) v.compact.toList v := by
  induction h with
  | null depth =>
    change Reads (value depth) ['n', 'u', 'l', 'l'] .null
    exact reads_word (by simp [Opens, isSpace]) (by decide) (by decide) (fun _ => rfl) depth
  | bool depth b =>
    cases b with
    | true =>
      change Reads (value depth) ['t', 'r', 'u', 'e'] (.bool true)
      exact reads_word (by simp [Opens, isSpace]) (by decide) (by decide) (fun _ => rfl) depth
    | false =>
      change Reads (value depth) ['f', 'a', 'l', 's', 'e'] (.bool false)
      exact reads_word (by simp [Opens, isSpace]) (by decide) (by decide) (fun _ => rfl) depth
  | int depth hlow hhigh =>
    rw [Value.compact]
    exact reads_int hlow hhigh depth
  | string depth s =>
    rw [Value.compact]
    exact reads_string s depth
  | array _ ih =>
    rw [toList_compact_array]
    apply reads_array blank_nil blank_nil blank_nil
    rw [List.forall₂_map_left_iff, List.forall₂_same]
    exact ih
  | object _ ih =>
    rw [toList_compact_object]
    apply reads_object blank_nil blank_nil blank_nil
    rw [List.forall₂_map_left_iff, List.forall₂_same]
    intro m hm
    have hmember := reads_member m.1 (ih m hm) blank_nil
    rwa [List.nil_append] at hmember

/-! ### Values on several lines -/

theorem blank_lineBreak (level : Nat) : Blank (lineBreak level).toList := by
  intro c hc
  simp only [lineBreak, String.toList_ofList, List.mem_cons, List.mem_replicate] at hc
  rcases hc with rfl | ⟨-, rfl⟩ <;> rfl

theorem indentedItems_eq_map (level : Nat) (vs : List Value) :
    indentedItems level vs = vs.map (Value.indented level) := by
  induction vs with
  | nil => simp [indentedItems]
  | cons v vs ih => simp [indentedItems, ih]

theorem indentedMembers_eq_map (level : Nat) (ms : List (String × Value)) :
    indentedMembers level ms = ms.map fun m => quoted m.1 ++ ": " ++ m.2.indented level := by
  induction ms with
  | nil => simp [indentedMembers]
  | cons m ms ih =>
    obtain ⟨name, v⟩ := m
    simp [indentedMembers, ih]

/-- A block is its parts with commas between them and white space around them. -/
theorem exists_toList_block (level : Nat) (opening closing : String) (parts : List String) :
    ∃ first gap last, Blank first ∧ Blank gap ∧ Blank last ∧
      (block level opening closing parts).toList = opening.toList ++
        (first ++ ((',' :: gap).intercalate (parts.map String.toList) ++
          (last ++ closing.toList))) := by
  cases parts with
  | nil => exact ⟨[], [], [], blank_nil, blank_nil, blank_nil, by simp [block]⟩
  | cons part parts =>
    refine ⟨(lineBreak (level + 1)).toList, (lineBreak (level + 1)).toList,
      (lineBreak level).toList, blank_lineBreak _, blank_lineBreak _, blank_lineBreak _, ?_⟩
    simp [block, String.toList_intercalate]

/-- A value is read back from its text on several lines. -/
theorem Fits.reads_indented {depth : Nat} {v : Value} (h : Fits depth v) (level : Nat) :
    Reads (value depth) (v.indented level).toList v := by
  induction h generalizing level with
  | null depth => exact (Fits.null depth).reads_compact
  | bool depth b => exact (Fits.bool depth b).reads_compact
  | int depth hlow hhigh => exact (Fits.int depth hlow hhigh).reads_compact
  | string depth s => exact (Fits.string depth s).reads_compact
  | @array depth vs _ ih =>
    obtain ⟨first, gap, last, hfirst, hgap, hlast, htext⟩ :=
      exists_toList_block level "[" "]" (indentedItems (level + 1) vs)
    rw [Value.indented, htext, indentedItems_eq_map, List.map_map]
    apply reads_array hfirst hgap hlast
    rw [List.forall₂_map_left_iff, List.forall₂_same]
    intro v hv
    exact ih v hv (level + 1)
  | @object depth ms _ ih =>
    obtain ⟨first, gap, last, hfirst, hgap, hlast, htext⟩ :=
      exists_toList_block level "\x7b" "\x7d" (indentedMembers (level + 1) ms)
    rw [Value.indented, htext, indentedMembers_eq_map, List.map_map]
    apply reads_object hfirst hgap hlast
    rw [List.forall₂_map_left_iff, List.forall₂_same]
    intro m hm
    have hblank : Blank [' '] := by simp [Blank, isSpace]
    have hmember := reads_member m.1 (ih m hm (level + 1)) hblank
    simpa using hmember

/-- A value is read back from its text on several lines, whatever white space follows it. -/
theorem parse_pretty_append {v : Value} (h : Fits maxDepth v) {tail : String}
    (htail : Blank tail.toList) : parse (v.pretty ++ tail) = .ok v :=
  (h.reads_indented 0).whole_append htail

end Rv32Asm.Json

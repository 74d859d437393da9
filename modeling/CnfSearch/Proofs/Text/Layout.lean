import CnfSearch.Proofs.Text.Words
import Mathlib.Data.List.TakeWhile

set_option autoImplicit false

/-!
# The layout of a text

How a text falls into lines and a line into words, said without the functions that cut them. A line
is closed by a line feed, or by the end of the text if it is not empty (`Lines`); without the white
space at its two ends a line is its core (`Core`); words are runs without white space, with white
space between any two of them (`MadeOf`). Every text and every line has such a layout, and the
functions compute it: `pieces_eq_iff_lines`, `trim_eq_iff_core`, `words_eq_iff_madeOf`. What stands
before the first element of some kind is said by `UpTo`, and computed by `List.takeWhile`.
-/

namespace CnfSearch.Text

/-! ## Lines -/

/-- The lines of a text. -/
inductive Lines : List Char → List (List Char) → Prop where
  | nil : Lines [] []
  | last {line : List Char} (nonempty : line ≠ []) (unbroken : '\n' ∉ line) : Lines line [line]
  | closed {line rest : List Char} {lines : List (List Char)} (unbroken : '\n' ∉ line)
      (later : Lines rest lines) : Lines (line ++ '\n' :: rest) (line :: lines)

theorem Lines.pieces_eq {cs : List Char} {lines : List (List Char)} (h : Lines cs lines) :
    pieces (fun c => c == '\n') cs = lines := by
  have noBreak : ∀ {line : List Char}, '\n' ∉ line → ∀ c ∈ line, (c == '\n') = false := by
    intro line unbroken c hc
    rw [beq_eq_false_iff_ne]
    exact ne_of_mem_of_not_mem hc unbroken
  induction h with
  | nil => rfl
  | last nonempty unbroken => exact pieces_of_unbroken nonempty (noBreak unbroken)
  | closed unbroken later ih => rw [pieces_append_break _ (noBreak unbroken) rfl, ih]

/-- A character in front closes an empty line, or it joins the first one. -/
theorem Lines.exists_cons (c : Char) {cs : List Char} {lines : List (List Char)}
    (h : Lines cs lines) : ∃ more, Lines (c :: cs) more := by
  by_cases hbreak : c = '\n'
  · subst hbreak
    have closed : Lines ([] ++ '\n' :: cs) ([] :: lines) := .closed List.not_mem_nil h
    exact ⟨_, closed⟩
  have joins : ∀ {line : List Char}, '\n' ∉ line → '\n' ∉ c :: line := by
    intro line unbroken
    exact List.not_mem_cons_of_ne_of_not_mem (Ne.symm hbreak) unbroken
  cases h with
  | nil => exact ⟨_, .last (List.cons_ne_nil c []) (joins List.not_mem_nil)⟩
  | last nonempty unbroken => exact ⟨_, .last (List.cons_ne_nil c cs) (joins unbroken)⟩
  | closed unbroken later => exact ⟨_, .closed (joins unbroken) later⟩

theorem exists_lines (cs : List Char) : ∃ lines, Lines cs lines := by
  induction cs with
  | nil => exact ⟨[], .nil⟩
  | cons c cs ih =>
    obtain ⟨lines, h⟩ := ih
    exact h.exists_cons c

/-- The pieces between line feeds are the lines. -/
theorem pieces_eq_iff_lines {cs : List Char} {lines : List (List Char)} :
    pieces (fun c => c == '\n') cs = lines ↔ Lines cs lines := by
  constructor
  · rintro rfl
    obtain ⟨lines, h⟩ := exists_lines cs
    rw [h.pieces_eq]
    exact h
  · exact Lines.pieces_eq

/-! ## Cores -/

/-- The second line is the first one without the white space at its ends. -/
structure Core (line core : List Char) : Prop where
  cut : ∃ before after, line = before ++ core ++ after ∧ (∀ c ∈ before, IsSpace c) ∧
    ∀ c ∈ after, IsSpace c
  first : ∀ c ∈ core.head?, ¬ IsSpace c
  last : ∀ c ∈ core.getLast?, ¬ IsSpace c

/-- Blanks in front of a line that does not open with one are all that is dropped. -/
theorem dropWhile_append_eq {before rest : List Char} (blank : ∀ c ∈ before, IsSpace c)
    (first : ∀ c ∈ rest.head?, ¬ IsSpace c) : (before ++ rest).dropWhile isBlank = rest := by
  rw [List.dropWhile_append_of_pos fun c hc => isBlank_iff.mpr (blank c hc)]
  cases rest with
  | nil => rfl
  | cons c rest => rw [List.dropWhile_cons_of_neg (by simpa [isBlank_iff] using first)]

theorem Core.trim_eq {line core : List Char} (h : Core line core) : trim line = core := by
  obtain ⟨⟨before, after, rfl, hbefore, hafter⟩, first, last⟩ := h
  by_cases empty : core = []
  · subst empty
    have blank : ∀ c ∈ before ++ [] ++ after, IsSpace c := by
      simpa [or_imp, forall_and] using ⟨hbefore, hafter⟩
    have dropped : (before ++ [] ++ after).dropWhile isBlank = [] :=
      List.dropWhile_eq_nil_iff.mpr fun c hc => isBlank_iff.mpr (blank c hc)
    rw [trim, dropped]
    rfl
  · have opens : ∀ c ∈ (core ++ after).head?, ¬ IsSpace c := by
      obtain ⟨c, rest, rfl⟩ := List.exists_cons_of_ne_nil empty
      exact first
    have closes : ∀ c ∈ core.reverse.head?, ¬ IsSpace c := by rwa [List.head?_reverse]
    rw [trim, List.append_assoc, dropWhile_append_eq hbefore opens, List.reverse_append,
      dropWhile_append_eq (by simpa using hafter) closes, List.reverse_reverse]

/-- White space in front is cut off; any other character extends the core up to the front. -/
theorem Core.exists_cons (c : Char) {line core : List Char} (h : Core line core) :
    ∃ more, Core (c :: line) more := by
  obtain ⟨⟨before, after, rfl, hbefore, hafter⟩, first, last⟩ := h
  by_cases space : IsSpace c
  · exact ⟨core, ⟨c :: before, after, rfl, List.forall_mem_cons.mpr ⟨space, hbefore⟩, hafter⟩,
      first, last⟩
  by_cases empty : core = []
  · -- The rest of the line is white space, so the character is the whole core.
    subst empty
    have blank : ∀ d ∈ before ++ [] ++ after, IsSpace d := by
      simpa [or_imp, forall_and] using ⟨hbefore, hafter⟩
    exact ⟨[c], ⟨[], _, rfl, by simp, blank⟩, by simpa using space, by simpa using space⟩
  · refine ⟨c :: (before ++ core), ⟨[], after, rfl, by simp, hafter⟩, by simpa using space, ?_⟩
    have sameEnd : (c :: (before ++ core)).getLast? = core.getLast? := by
      rw [← List.cons_append, List.getLast?_append, List.getLast?_eq_some_getLast empty]
      rfl
    rwa [sameEnd]

theorem exists_core (line : List Char) : ∃ core, Core line core := by
  induction line with
  | nil => exact ⟨[], ⟨[], [], rfl, by simp, by simp⟩, by simp, by simp⟩
  | cons c line ih =>
    obtain ⟨core, h⟩ := ih
    exact h.exists_cons c

theorem trim_eq_iff_core {line core : List Char} : trim line = core ↔ Core line core := by
  constructor
  · rintro rfl
    obtain ⟨core, h⟩ := exists_core line
    rw [h.trim_eq]
    exact h
  · exact Core.trim_eq

/-! ## Words -/

/-- A line is made of words. -/
inductive MadeOf : List Char → List (List Char) → Prop where
  | spaces {gap : List Char} (blank : ∀ c ∈ gap, IsSpace c) : MadeOf gap []
  | last {gap word : List Char} (blank : ∀ c ∈ gap, IsSpace c) (isWord : IsWord word) :
      MadeOf (gap ++ word) [word]
  | word {gap word rest : List Char} {space : Char} {words : List (List Char)}
      (blank : ∀ c ∈ gap, IsSpace c) (isWord : IsWord word) (apart : IsSpace space)
      (later : MadeOf rest words) : MadeOf (gap ++ word ++ space :: rest) (word :: words)

/-- White space in front does not change the words. -/
theorem words_append_of_isSpace {gap : List Char} (rest : List Char)
    (blank : ∀ c ∈ gap, IsSpace c) : words (gap ++ rest) = words rest := by
  induction gap with
  | nil => rfl
  | cons c gap ih =>
    rw [List.forall_mem_cons] at blank
    rw [List.cons_append, words, pieces_cons_of_break _ (isBlank_iff.mpr blank.1),
      List.filter_cons_of_neg (by simp)]
    exact ih blank.2

theorem MadeOf.words_eq {line : List Char} {ws : List (List Char)} (h : MadeOf line ws) :
    words line = ws := by
  induction h with
  | @spaces gap blank =>
    have none := words_append_of_isSpace [] blank
    rw [List.append_nil] at none
    exact none
  | last blank isWord => rw [words_append_of_isSpace _ blank, words_of_isWord isWord]
  | word blank isWord apart later ih =>
    rw [List.append_assoc, words_append_of_isSpace _ blank,
      words_append_blank _ isWord (isBlank_iff.mpr apart), ih]

/-- White space in front widens the first gap; any other character opens a word or joins the one
that the line opens with. -/
theorem MadeOf.exists_cons (c : Char) {line : List Char} {ws : List (List Char)}
    (h : MadeOf line ws) : ∃ more, MadeOf (c :: line) more := by
  by_cases space : IsSpace c
  · have widened : ∀ {gap : List Char}, (∀ d ∈ gap, IsSpace d) → ∀ d ∈ c :: gap, IsSpace d :=
      fun blank => List.forall_mem_cons.mpr ⟨space, blank⟩
    cases h with
    | spaces blank => exact ⟨_, .spaces (widened blank)⟩
    | last blank isWord => exact ⟨_, .last (widened blank) isWord⟩
    | word blank isWord apart later => exact ⟨_, .word (widened blank) isWord apart later⟩
  have letter : IsWord [c] := ⟨List.cons_ne_nil c [], by simpa using space⟩
  have joins : ∀ {word : List Char}, IsWord word → IsWord (c :: word) := fun isWord =>
    ⟨List.cons_ne_nil _ _, List.forall_mem_cons.mpr ⟨space, isWord.unbroken⟩⟩
  have noGap : ∀ d ∈ ([] : List Char), IsSpace d := by simp
  -- If the line opens with white space the character is a word of its own.
  have opens : ∀ {d : Char} {rest : List Char}, line = d :: rest → IsSpace d →
      (∃ more, MadeOf rest more) → ∃ more, MadeOf (c :: line) more := by
    rintro d rest rfl apart ⟨more, later⟩
    exact ⟨_, .word noGap letter apart later⟩
  cases h with
  | spaces blank =>
    cases line with
    | nil => exact ⟨_, .last noGap letter⟩
    | cons d gap =>
      rw [List.forall_mem_cons] at blank
      exact opens rfl blank.1 ⟨_, .spaces blank.2⟩
  | @last gap word blank isWord =>
    cases gap with
    | nil => exact ⟨_, .last noGap (joins isWord)⟩
    | cons d gap =>
      rw [List.forall_mem_cons] at blank
      exact opens rfl blank.1 ⟨_, .last blank.2 isWord⟩
  | @word gap word rest _ _ blank isWord apart later =>
    cases gap with
    | nil => exact ⟨_, .word noGap (joins isWord) apart later⟩
    | cons d gap =>
      rw [List.forall_mem_cons] at blank
      exact opens rfl blank.1 ⟨_, .word blank.2 isWord apart later⟩

theorem exists_madeOf (line : List Char) : ∃ ws, MadeOf line ws := by
  induction line with
  | nil => exact ⟨[], .spaces (by simp)⟩
  | cons c line ih =>
    obtain ⟨ws, h⟩ := ih
    exact h.exists_cons c

/-- The words of a line are those that it is made of. -/
theorem words_eq_iff_madeOf {line : List Char} {ws : List (List Char)} :
    words line = ws ↔ MadeOf line ws := by
  constructor
  · rintro rfl
    obtain ⟨ws, h⟩ := exists_madeOf line
    rw [h.words_eq]
    exact h
  · exact MadeOf.words_eq

/-! ## Elements before the first of a kind -/

section UpTo

variable {α : Type} {stops : α → Prop}

/-- The elements before the first one of a kind, or all if there is none. -/
inductive UpTo (stops : α → Prop) : List α → List α → Prop where
  | all {items : List α} (goesOn : ∀ x ∈ items, ¬ stops x) : UpTo stops items items
  | cut {before after : List α} {x : α} (goesOn : ∀ y ∈ before, ¬ stops y) (first : stops x) :
      UpTo stops (before ++ x :: after) before

theorem takeWhile_eq_iff_upTo {goes : α → Bool} (decides : ∀ x, goes x = true ↔ ¬ stops x)
    {items kept : List α} : items.takeWhile goes = kept ↔ UpTo stops items kept := by
  constructor
  · rintro rfl
    have goesOn : ∀ x ∈ items.takeWhile goes, ¬ stops x := fun x hx =>
      (decides x).mp (List.mem_takeWhile_imp hx)
    have whole : items.takeWhile goes ++ items.dropWhile goes = items :=
      List.takeWhile_append_dropWhile
    cases hrest : items.dropWhile goes with
    | nil =>
      rw [hrest, List.append_nil] at whole
      rw [whole] at goesOn ⊢
      exact .all goesOn
    | cons x after =>
      have stop : ¬ goes x = true := by
        have := List.head?_dropWhile_not goes items
        simpa [hrest] using this
      rw [decides, not_not] at stop
      rw [hrest] at whole
      have cut : UpTo stops (items.takeWhile goes ++ x :: after) _ := .cut goesOn stop
      rwa [whole] at cut
  · intro h
    cases h with
    | all goesOn => exact List.takeWhile_eq_self_iff.mpr fun x hx => (decides x).mpr (goesOn x hx)
    | @cut _ after x goesOn first =>
      have stop : ¬ goes x = true := by rwa [decides, not_not]
      rw [List.takeWhile_append_of_pos fun y hy => (decides y).mpr (goesOn y hy),
        List.takeWhile_cons_of_neg stop, List.append_nil]

end UpTo

end CnfSearch.Text

import CnfSearch.Text.Blank

set_option autoImplicit false

/-!
# Joined words read back

A word is a non-empty run of characters without white space (`IsSpace`). Words that are joined by
one blank each are the words of the joined line (`words_intercalate`), and the joined line has no
outer blanks (`trim_intercalate`). Lines that are closed by a line feed each are the pieces of the
text between line feeds (`pieces_flatMap`), and behind a closing line feed new pieces begin
(`pieces_append_of_closed`).
-/

namespace CnfSearch.Text

/-! ## Pieces between breaks -/

section Pieces

variable {α : Type} {isBreak : α → Bool}

/-- What stands before the first break is the first piece. -/
theorem pieces_append_break {piece : List α} {item : α} (items : List α)
    (unbroken : ∀ x ∈ piece, isBreak x = false) (h : isBreak item = true) :
    pieces isBreak (piece ++ item :: items) = piece :: pieces isBreak items := by
  induction piece with
  | nil => exact pieces_cons_of_break items h
  | cons x rest ih =>
    rw [List.forall_mem_cons] at unbroken
    rw [List.cons_append, pieces_cons_of_not_break _ unbroken.1, ih unbroken.2]

/-- Items without a break are one piece. -/
theorem pieces_of_unbroken {piece : List α} (nonempty : piece ≠ [])
    (unbroken : ∀ x ∈ piece, isBreak x = false) : pieces isBreak piece = [piece] := by
  induction piece with
  | nil => exact absurd rfl nonempty
  | cons x rest ih =>
    rw [List.forall_mem_cons] at unbroken
    rw [pieces_cons_of_not_break _ unbroken.1]
    cases rest with
    | nil => rfl
    | cons y more => rw [ih (List.cons_ne_nil y more) unbroken.2]

/-- Pieces that are closed by a break each are the pieces of the whole. -/
theorem pieces_flatMap {item : α} (h : isBreak item = true) {lines : List (List α)}
    (unbroken : ∀ line ∈ lines, ∀ x ∈ line, isBreak x = false) :
    pieces isBreak (lines.flatMap fun line => line ++ [item]) = lines := by
  induction lines with
  | nil => rfl
  | cons line rest ih =>
    rw [List.forall_mem_cons] at unbroken
    rw [List.flatMap_cons, List.append_assoc, List.singleton_append,
      pieces_append_break _ unbroken.1 h, ih unbroken.2]

/-- A sequence that is not empty has a first piece. -/
theorem exists_pieces_cons (item : α) (items : List α) :
    ∃ piece more, pieces isBreak (item :: items) = piece :: more := by
  cases h : isBreak item with
  | true => exact ⟨[], _, pieces_cons_of_break items h⟩
  | false =>
    rw [pieces_cons_of_not_break items h]
    cases pieces isBreak items with
    | nil => exact ⟨[item], [], rfl⟩
    | cons piece more => exact ⟨item :: piece, more, rfl⟩

/-- What follows a closing break does not change the pieces before it. -/
theorem pieces_append_of_closed {items : List α} {last : α} (more : List α)
    (closed : items.getLast? = some last) (h : isBreak last = true) :
    pieces isBreak (items ++ more) = pieces isBreak items ++ pieces isBreak more := by
  induction items with
  | nil => cases closed
  | cons item rest ih =>
    cases rest with
    | nil =>
      obtain rfl : item = last := Option.some.inj closed
      rw [List.singleton_append, pieces_cons_of_break more h, pieces_cons_of_break [] h]
      rfl
    | cons next rest =>
      have later := ih (by rwa [List.getLast?_cons_cons] at closed)
      cases hitem : isBreak item with
      | true =>
        rw [List.cons_append, pieces_cons_of_break _ hitem, pieces_cons_of_break _ hitem, later]
        rfl
      | false =>
        -- The piece that the item joins is there already before the further items.
        obtain ⟨piece, others, hpieces⟩ : ∃ piece others,
            pieces isBreak (next :: rest) = piece :: others := exists_pieces_cons next rest
        rw [List.cons_append, pieces_cons_of_not_break _ hitem, pieces_cons_of_not_break _ hitem,
          later, hpieces]
        rfl

end Pieces

/-! ## Words -/

/-- The characters with the Unicode property White_Space. -/
def IsSpace (c : Char) : Prop :=
  0x09 ≤ c.toNat ∧ c.toNat ≤ 0x0D ∨ c.toNat = 0x20 ∨ c.toNat = 0x85 ∨ c.toNat = 0xA0 ∨
    c.toNat = 0x1680 ∨ 0x2000 ≤ c.toNat ∧ c.toNat ≤ 0x200A ∨ c.toNat = 0x2028 ∨ c.toNat = 0x2029 ∨
      c.toNat = 0x202F ∨ c.toNat = 0x205F ∨ c.toNat = 0x3000

instance : DecidablePred IsSpace := fun _ => inferInstanceAs (Decidable (_ ∨ _))

/-- The table of blanks holds just these characters. -/
theorem isBlank_iff {c : Char} : isBlank c = true ↔ IsSpace c := by
  simp only [isBlank, blankRanges, List.any_cons, List.any_nil, Bool.or_false, Bool.or_eq_true,
    Bool.and_eq_true, decide_eq_true_iff, IsSpace]
  omega

theorem isBlank_eq_false_iff {c : Char} : isBlank c = false ↔ ¬ IsSpace c := by
  rw [← isBlank_iff, Bool.not_eq_true]

/-- A non-empty run of characters without white space. -/
structure IsWord (word : List Char) : Prop where
  nonempty : word ≠ []
  unbroken : ∀ c ∈ word, ¬ IsSpace c

theorem IsWord.isBlank_eq_false {word : List Char} (h : IsWord word) :
    ∀ c ∈ word, isBlank c = false :=
  fun c hc => isBlank_eq_false_iff.mpr (h.unbroken c hc)

/-- Digits are no white space. -/
theorem not_isSpace_of_isDigit {c : Char} (h : c.isDigit = true) : ¬ IsSpace c := by
  obtain ⟨above, below⟩ : 48 ≤ c.toNat ∧ c.toNat ≤ 57 := Char.isDigit_iff_toNat.mp h
  rw [IsSpace]
  omega

/-- A word in front of a blank is the first word of a line. -/
theorem words_append_blank {word : List Char} {blank : Char} (rest : List Char) (h : IsWord word)
    (hblank : isBlank blank = true) : words (word ++ blank :: rest) = word :: words rest := by
  rw [words, pieces_append_break rest h.isBlank_eq_false hblank, List.filter_cons_of_pos, words]
  simpa using h.nonempty

theorem words_of_isWord {word : List Char} (h : IsWord word) : words word = [word] := by
  rw [words, pieces_of_unbroken h.nonempty h.isBlank_eq_false, List.filter_cons_of_pos,
    List.filter_nil]
  simpa using h.nonempty

/-- Words with a blank between them are the words of the line. -/
theorem words_intercalate {line : List (List Char)} (h : ∀ word ∈ line, IsWord word) :
    words ([' '].intercalate line) = line := by
  induction line with
  | nil => rfl
  | cons word rest ih =>
    rw [List.forall_mem_cons] at h
    cases rest with
    | nil => rw [List.intercalate_singleton, words_of_isWord h.1]
    | cons next more =>
      rw [List.intercalate_cons_cons, List.append_assoc, List.singleton_append,
        words_append_blank _ h.1 rfl, ih h.2]

/-- A character of a joined line is a blank or stands in one of the words. -/
theorem mem_intercalate {line : List (List Char)} {c : Char} (h : c ∈ [' '].intercalate line) :
    c = ' ' ∨ ∃ word ∈ line, c ∈ word := by
  induction line with
  | nil => cases h
  | cons word rest ih =>
    by_cases hrest : rest = []
    · subst hrest
      rw [List.intercalate_singleton] at h
      exact .inr ⟨word, List.mem_cons_self, h⟩
    · rw [List.intercalate_cons_of_ne_nil hrest, List.append_assoc, List.mem_append,
        List.singleton_append, List.mem_cons] at h
      rcases h with hword | hblank | hmore
      · exact .inr ⟨word, List.mem_cons_self, hword⟩
      · exact .inl hblank
      · rcases ih hmore with hblank | ⟨other, hother, hc⟩
        · exact .inl hblank
        · exact .inr ⟨other, List.mem_cons_of_mem word hother, hc⟩

/-! ## Lines without outer blanks -/

/-- A line that begins and ends without a blank is its own trimmed form. -/
theorem trim_eq_self {line : List Char} (first : ∀ c ∈ line.head?, isBlank c = false)
    (last : ∀ c ∈ line.getLast?, isBlank c = false) : trim line = line := by
  have dropWhile_eq : ∀ cs : List Char, (∀ c ∈ cs.head?, isBlank c = false) →
      cs.dropWhile isBlank = cs := by
    intro cs h
    cases cs with
    | nil => rfl
    | cons c rest => simp [h c rfl]
  rw [trim, dropWhile_eq line first, dropWhile_eq, List.reverse_reverse]
  simpa [List.head?_reverse] using last

theorem head?_intercalate {word : List Char} {rest : List (List Char)} (h : IsWord word) :
    ([' '].intercalate (word :: rest)).head? = word.head? := by
  cases rest with
  | nil => rw [List.intercalate_singleton]
  | cons next more =>
    obtain ⟨c, cs, rfl⟩ := List.exists_cons_of_ne_nil h.nonempty
    rw [List.intercalate_cons_cons]
    rfl

theorem getLast?_intercalate {line : List (List Char)} {word : List Char} (h : IsWord word) :
    ([' '].intercalate (line ++ [word])).getLast? = word.getLast? := by
  induction line with
  | nil => rw [List.nil_append, List.intercalate_singleton]
  | cons first rest ih =>
    have hlast : word.getLast? = some (word.getLast h.nonempty) := List.getLast?_eq_some_getLast _
    rw [List.cons_append, List.intercalate_cons_of_ne_nil (by simp), List.getLast?_append, ih,
      hlast]
    rfl

/-- Joined words have no outer blanks. -/
theorem trim_intercalate {line : List (List Char)} (h : ∀ word ∈ line, IsWord word) :
    trim ([' '].intercalate line) = [' '].intercalate line := by
  apply trim_eq_self
  · intro c hc
    cases line with
    | nil => cases hc
    | cons word rest =>
      have hword := h word List.mem_cons_self
      rw [head?_intercalate hword] at hc
      exact hword.isBlank_eq_false c (List.mem_of_mem_head? hc)
  · intro c hc
    rcases List.eq_nil_or_concat line with rfl | ⟨front, word, rfl⟩
    · cases hc
    · have hword := h word (by simp)
      rw [List.concat_eq_append, getLast?_intercalate hword] at hc
      exact hword.isBlank_eq_false c (List.mem_of_getLast? hc)

end CnfSearch.Text

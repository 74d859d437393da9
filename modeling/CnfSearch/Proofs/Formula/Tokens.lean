import CnfSearch.Formula.Clause
import Mathlib.Data.List.Forall2

set_option autoImplicit false

/-!
# Tokens of a clause line

What the readers of numbers, literals and clauses accept, said without them. A numeral is a run of
decimal digits (`Numeral`); a count may have a plus sign (`below?_eq_some_iff`) and the number of a
literal a minus sign (`IsLiteral`). A clause line is read token by token up to its terminator: it is
accepted if each of these tokens is a literal and there is one (`Clause.parse_eq_ok_iff`), and
otherwise the first token that is none is named (`Clause.parse_eq_error_iff`).
-/

namespace CnfSearch

/-! ## Readers applied one after another -/

section Sequence

variable {α β ε : Type} {f : α → Except ε β}

/-- All readings succeed exactly if each one does. -/
theorem mapM_eq_ok_iff {xs : List α} {ys : List β} :
    xs.mapM f = .ok ys ↔ List.Forall₂ (fun x y => f x = .ok y) xs ys := by
  induction xs generalizing ys with
  | nil => cases ys <;> simp [pure, Except.pure]
  | cons x xs ih =>
    rw [List.mapM_cons]
    cases hx : f x with
    | error e => cases ys <;> simp [bind, Except.bind, hx]
    | ok y =>
      cases hxs : xs.mapM f with
      | error e => cases ys <;> simp [bind, Except.bind, ← ih, hx, hxs]
      | ok rest => cases ys <;> simp [bind, Except.bind, pure, Except.pure, ← ih, hx, hxs]

/-- The error of a sequence of readings is the one of the first that fails. -/
theorem mapM_eq_error_iff {xs : List α} {e : ε} :
    xs.mapM f = .error e ↔ ∃ before x after, xs = before ++ x :: after ∧
      (∀ y ∈ before, ∃ z, f y = .ok z) ∧ f x = .error e := by
  induction xs with
  | nil => simp [pure, Except.pure]
  | cons x xs ih =>
    rw [List.mapM_cons]
    constructor
    · intro h
      cases hx : f x with
      | error e' =>
        rw [hx] at h
        cases h
        exact ⟨[], x, xs, rfl, by simp, hx⟩
      | ok y =>
        cases hxs : xs.mapM f with
        | error e' =>
          rw [hx, hxs] at h
          cases h
          obtain ⟨before, z, after, rfl, hbefore, hz⟩ := ih.mp hxs
          refine ⟨x :: before, z, after, rfl, ?_, hz⟩
          rw [List.forall_mem_cons]
          exact ⟨⟨y, hx⟩, hbefore⟩
        | ok ys =>
          rw [hx, hxs] at h
          cases h
    · rintro ⟨before, z, after, hsplit, hbefore, hz⟩
      cases before with
      | nil =>
        cases hsplit
        rw [hz]
        rfl
      | cons first before =>
        cases hsplit
        rw [List.forall_mem_cons] at hbefore
        obtain ⟨⟨y, hy⟩, hbefore⟩ := hbefore
        rw [hy, ih.mpr ⟨before, z, after, rfl, hbefore, hz⟩]
        rfl

/-- In related lists, whatever stands on the right has a partner on the left. -/
theorem exists_of_mem_right {R : α → β → Prop} {xs : List α} {ys : List β}
    (h : List.Forall₂ R xs ys) : ∀ y ∈ ys, ∃ x ∈ xs, R x y := by
  induction h with
  | nil => simp
  | cons related _ ih =>
    rw [List.forall_mem_cons]
    refine ⟨⟨_, List.mem_cons_self, related⟩, ?_⟩
    intro y hy
    obtain ⟨x, hx, hxy⟩ := ih y hy
    exact ⟨x, List.mem_cons_of_mem _ hx, hxy⟩

/-- What related lists have on the right falls into parts as the left one does. -/
theorem exists_split_of_forall₂ {R : α → β → Prop} {before after : List α} {ys : List β}
    (h : List.Forall₂ R (before ++ after) ys) :
    ∃ earlier later, ys = earlier ++ later ∧ List.Forall₂ R before earlier ∧
      List.Forall₂ R after later := by
  have turned : List.Forall₂ (flip R) ys (before ++ after) := h.flip
  refine ⟨ys.take before.length, ys.drop before.length, (List.take_append_drop _ _).symm, ?_, ?_⟩
  · exact (List.forall₂_take_append _ _ _ turned).flip
  · exact (List.forall₂_drop_append _ _ _ turned).flip

end Sequence

/-! ## Numerals -/

namespace Text

/-- One or more decimal digits and their value. -/
structure Numeral (digits : List Char) (value : Nat) : Prop where
  nonempty : digits ≠ []
  allDigits : ∀ c ∈ digits, c.isDigit = true
  value : Nat.ofDigitChars 10 digits 0 = value

theorem natural?_eq_some_iff_numeral {cs : List Char} {n : Nat} :
    natural? cs = some n ↔ Numeral cs n := by
  rw [natural?_eq_some_iff, List.all_eq_true]
  constructor
  · rintro ⟨nonempty, allDigits, value⟩
    exact ⟨nonempty, allDigits, value⟩
  · rintro ⟨nonempty, allDigits, value⟩
    exact ⟨nonempty, allDigits, value⟩

/-- The digits of a number are a numeral of it. -/
theorem numeral_toDigits (n : Nat) : Numeral (Nat.toDigits 10 n) n :=
  natural?_eq_some_iff_numeral.mp (natural?_toDigits n)

/-- A numeral opens with no sign. -/
theorem Numeral.head_ne {c : Char} {rest : List Char} {n : Nat} (h : Numeral (c :: rest) n)
    {sign : Char} (hsign : sign.isDigit = false) : c ≠ sign := by
  rintro rfl
  have := h.allDigits c List.mem_cons_self
  rw [hsign] at this
  cases this

/-- A numeral below a bound, in front of which a plus sign may stand. -/
inductive Count (bound : Nat) : List Char → Nat → Prop where
  | plain {digits : List Char} {n : Nat} (numeral : Numeral digits n) (below : n < bound) :
      Count bound digits n
  | plus {digits : List Char} {n : Nat} (numeral : Numeral digits n) (below : n < bound) :
      Count bound ('+' :: digits) n

theorem below?_eq_some_iff {bound : Nat} {cs : List Char} {n : Nat} :
    below? bound cs = some n ↔ Count bound cs n := by
  unfold below?
  rw [Option.filter_eq_some_iff, decide_eq_true_iff, natural?_eq_some_iff_numeral]
  constructor
  · rintro ⟨numeral, below⟩
    split at numeral
    next rest => exact .plus numeral below
    next => exact .plain numeral below
  · intro h
    cases h with
    | plain numeral below =>
      refine ⟨?_, below⟩
      split
      next rest => exact absurd rfl (numeral.head_ne (by decide))
      next => exact numeral
    | plus numeral below => exact ⟨numeral, below⟩

end Text

/-! ## Literals -/

/-- A numeral of a variable, in front of which a minus sign may stand; its literal has the
variable's number, without leading zeros, as symbol. -/
inductive IsLiteral : List Char → Literal → Prop where
  | positive {digits : List Char} {n : Nat} (numeral : Text.Numeral digits n) (pos : 0 < n)
      (le : n ≤ Literal.greatestVariable) : IsLiteral digits ⟨n.repr, true⟩
  | negative {digits : List Char} {n : Nat} (numeral : Text.Numeral digits n) (pos : 0 < n)
      (le : n ≤ Literal.greatestVariable) : IsLiteral ('-' :: digits) ⟨n.repr, false⟩

namespace Literal

/-- The symbol is the number of a variable that a text can name. -/
structure HasVariable (l : Literal) (v : Nat) : Prop where
  symbol : l.symbol = v.repr
  pos : 0 < v
  le : v ≤ greatestVariable

theorem variableNumber?_eq_some_iff {digits : List Char} {n : Nat} :
    variableNumber? digits = some n ↔ Text.Numeral digits n ∧ 0 < n ∧ n ≤ greatestVariable := by
  simp only [variableNumber?, Option.filter_eq_some_iff, Text.natural?_eq_some_iff_numeral,
    Bool.and_eq_true, decide_eq_true_iff]

theorem read?_eq_some_iff {token : List Char} {l : Literal} :
    read? token = some l ↔ IsLiteral token l := by
  rw [read?.eq_def]
  constructor
  · intro h
    split at h
    next digits =>
      obtain ⟨n, hn, rfl⟩ := Option.map_eq_some_iff.mp h
      obtain ⟨numeral, pos, le⟩ := variableNumber?_eq_some_iff.mp hn
      exact .negative numeral pos le
    next =>
      obtain ⟨n, hn, rfl⟩ := Option.map_eq_some_iff.mp h
      obtain ⟨numeral, pos, le⟩ := variableNumber?_eq_some_iff.mp hn
      exact .positive numeral pos le
  · intro h
    cases h with
    | positive numeral pos le =>
      split
      next digits => exact absurd rfl (numeral.head_ne (by decide))
      next =>
        rw [variableNumber?_eq_some_iff.mpr ⟨numeral, pos, le⟩]
        rfl
    | negative numeral pos le =>
      simp only
      rw [variableNumber?_eq_some_iff.mpr ⟨numeral, pos, le⟩]
      rfl

theorem parse_eq_ok_iff {token : List Char} {l : Literal} :
    parse token = .ok l ↔ IsLiteral token l := by
  rw [parse, ← read?_eq_some_iff]
  split
  next k hk => simp [hk]
  next hnone => simp [hnone]

/-- A token is refused by its own name, and only if it is no literal. -/
theorem parse_eq_error_iff {token : List Char} {e : ReadError} :
    parse token = .error e ↔
      (∀ l, ¬ IsLiteral token l) ∧ e = .invalidLiteral (String.ofList token) := by
  simp only [← read?_eq_some_iff, parse]
  split
  next k hk => simp [hk]
  next hnone => simp [hnone, eq_comm]

/-- The literals that tokens stand for have numbered variables. -/
theorem hasVariable_of_isLiteral {token : List Char} {l : Literal} (h : IsLiteral token l) :
    ∃ v, l.HasVariable v := by
  cases h with
  | positive numeral pos le => exact ⟨_, rfl, pos, le⟩
  | negative numeral pos le => exact ⟨_, rfl, pos, le⟩

/-- A literal of a numbered variable is what its written form stands for. -/
theorem HasVariable.isLiteral_text {l : Literal} {v : Nat} (h : l.HasVariable v) :
    IsLiteral l.text.toList l := by
  rcases l with ⟨symbol, positive⟩
  obtain ⟨rfl, pos, le⟩ := h
  have numeral := Text.numeral_toDigits v
  cases positive with
  | true =>
    have htext : (Literal.mk v.repr true).text.toList = Nat.toDigits 10 v := Nat.toList_repr
    rw [htext]
    exact .positive numeral pos le
  | false =>
    have htext : (Literal.mk v.repr false).text.toList = '-' :: Nat.toDigits 10 v := by
      rw [← Nat.toList_repr]
      exact String.toList_append
    rw [htext]
    exact .negative numeral pos le

/-- The written literals of numbered variables stand for these literals. -/
theorem forall₂_isLiteral_text {ls : List Literal} (named : ∀ l ∈ ls, ∃ v, l.HasVariable v) :
    List.Forall₂ IsLiteral (ls.map fun l => l.text.toList) ls := by
  rw [List.forall₂_map_left_iff, List.forall₂_same]
  intro l hl
  obtain ⟨v, hv⟩ := named l hl
  exact hv.isLiteral_text

end Literal

/-! ## Clauses -/

namespace Clause

/-- A line is read as a clause whose literals are its tokens before the terminator. -/
theorem parse_eq_ok_iff {line : List Char} {c : Clause} :
    parse line = .ok c ↔ List.Forall₂ IsLiteral (tokens line) c.literals := by
  have read : (tokens line).mapM Literal.parse = .ok c.literals ↔
      List.Forall₂ IsLiteral (tokens line) c.literals := by
    simp only [mapM_eq_ok_iff, Literal.parse_eq_ok_iff]
  rw [← read, parse]
  cases (tokens line).mapM Literal.parse with
  | error e => simp [bind, Except.bind]
  | ok ls =>
    change ofLiterals ls = .ok c ↔ Except.ok ls = .ok c.literals
    rw [ofLiterals_eq_ok_iff, Except.ok.injEq, eq_comm]

/-- The literals of a clause that words stand for have numbered variables. -/
theorem hasVariable_of_forall₂ {words : List (List Char)} {c : Clause}
    (h : List.Forall₂ IsLiteral words c.literals) :
    ∀ l ∈ c.literals, ∃ v, l.HasVariable v := by
  intro l hl
  obtain ⟨token, -, hlit⟩ := exists_of_mem_right h l hl
  exact Literal.hasVariable_of_isLiteral hlit

/-- A line is refused because of its first token before the terminator that is no literal, or
because it has no token there. -/
theorem parse_eq_error_iff {line : List Char} {e : ReadError} :
    parse line = .error e ↔
      (∃ before token after, tokens line = before ++ token :: after ∧
        (∀ t ∈ before, ∃ l, IsLiteral t l) ∧ (∀ l, ¬ IsLiteral token l) ∧
          e = .invalidLiteral (String.ofList token)) ∨
        tokens line = [] ∧ e = .emptyClause := by
  have refused : (tokens line).mapM Literal.parse = .error e ↔
      ∃ before token after, tokens line = before ++ token :: after ∧
        (∀ t ∈ before, ∃ l, IsLiteral t l) ∧ (∀ l, ¬ IsLiteral token l) ∧
          e = .invalidLiteral (String.ofList token) := by
    simp only [mapM_eq_error_iff, Literal.parse_eq_ok_iff, Literal.parse_eq_error_iff]
  rw [← refused, parse]
  -- A token that is refused comes before the question whether there is one.
  cases hread : (tokens line).mapM Literal.parse with
  | error cause =>
    have hsome : tokens line ≠ [] := by
      intro hnone
      rw [hnone] at hread
      cases hread
    simp [bind, Except.bind, hsome]
  | ok ls =>
    have hforall := mapM_eq_ok_iff.mp hread
    cases ls with
    | nil =>
      have hnone : tokens line = [] := List.forall₂_nil_right_iff.mp hforall
      simp [bind, Except.bind, ofLiterals, hnone, eq_comm]
    | cons l ls =>
      have hsome : tokens line ≠ [] := by
        intro hnone
        rw [hnone] at hforall
        cases hforall
      simp [bind, Except.bind, ofLiterals, hsome]

end Clause

end CnfSearch

import CnfSearch.Proofs.Dimacs.RoundTrip
import CnfSearch.Proofs.Formula.Canonical

set_option autoImplicit false

/-!
# Written clauses read back

A clause may have any symbols, and then its written form may be no clause, or another one. It is
read as the clause itself exactly if every symbol is the canonical numeral of a variable that a text
can name: `parse_text_iff`. So what was read once is read again, integers other than zero make
clauses of this kind, and the literal of zero, which is written like a terminator, never stands in
one: `written_clause_reads_back`.
-/

namespace CnfSearch

/-- An integer of 32 bits with sign. -/
structure FitsSigned32 (value : Int) : Prop where
  above : -(Text.signed32Bound : Int) ≤ value
  below : value < Text.signed32Bound

namespace Literal

/-- The literal of an integer other than zero is one that a text can name. -/
theorem hasVariable_ofInt {value : Int} (nonzero : value ≠ 0) (fits : FitsSigned32 value) :
    (ofInt value).HasVariable value.natAbs where
  symbol := rfl
  pos := Int.natAbs_pos.mpr nonzero
  le := by
    obtain ⟨above, below⟩ := fits
    -- The least integer has no positive counterpart, but its absolute value is a variable.
    have bound : Text.signed32Bound ≤ greatestVariable := by decide
    omega

/-- Zero is no variable. -/
theorem not_hasVariable_ofInt_zero (v : Nat) : ¬ (ofInt 0).HasVariable v := by
  rintro ⟨symbol, pos, -⟩
  have zero : 0 = v := Text.repr_injective symbol
  omega

end Literal

namespace Clause

variable {c : Clause}

/-- A text can name all literals of a clause that was read from a line. -/
theorem hasVariable_of_parse {line : List Char} (read : parse line = .ok c) :
    ∀ l ∈ c.literals, ∃ v, l.HasVariable v :=
  hasVariable_of_forall₂ (parse_eq_ok_iff.mp read)

/-- The written form is read as the clause itself exactly if a text can name all its literals. -/
theorem parse_text_iff :
    parse c.text.toList = .ok c ↔ ∀ l ∈ c.literals, ∃ v, l.HasVariable v := by
  constructor
  · exact hasVariable_of_parse
  · intro numbered
    rw [parse_eq_ok_iff, toList_text, Dimacs.tokens_clauseWords numbered]
    exact Literal.forall₂_isLiteral_text numbered

/-- A text can name all literals of a clause that was made of integers other than zero. -/
theorem hasVariable_of_integers {values : List Int}
    (made : ofLiterals (values.map Literal.ofInt) = .ok c)
    (fit : ∀ v ∈ values, v ≠ 0 ∧ FitsSigned32 v) : ∀ l ∈ c.literals, ∃ v, l.HasVariable v := by
  rw [ofLiterals_eq_ok_iff] at made
  rw [made, List.forall_mem_map]
  intro value hvalue
  obtain ⟨nonzero, fits⟩ := fit value hvalue
  exact ⟨_, Literal.hasVariable_ofInt nonzero fits⟩

end Clause

/-- The written form of a clause is read as that clause exactly if every literal has as symbol the
canonical numeral of a number from one to the greatest variable. This holds for the clauses that are
read from a line and for those that are made of integers other than zero, and for no clause with the
literal of the integer zero. -/
theorem written_clause_reads_back (c : Clause) :
    (Clause.parse c.text.toList = .ok c ↔
      ∀ l ∈ c.literals, Text.IsNumberUpTo Literal.greatestVariable l.symbol) ∧
    (∀ line, Clause.parse line = .ok c → Clause.parse c.text.toList = .ok c) ∧
    (∀ values : List Int, (∀ v ∈ values, v ≠ 0 ∧ FitsSigned32 v) →
      Clause.ofLiterals (values.map Literal.ofInt) = .ok c →
        Clause.parse c.text.toList = .ok c) ∧
    (Literal.ofInt 0 ∈ c.literals → Clause.parse c.text.toList ≠ .ok c) := by
  refine ⟨?_, ?_, ?_, ?_⟩
  · simp only [Clause.parse_text_iff, Literal.exists_hasVariable_iff]
  · intro line read
    exact Clause.parse_text_iff.mpr (Clause.hasVariable_of_parse read)
  · intro values fit made
    exact Clause.parse_text_iff.mpr (Clause.hasVariable_of_integers made fit)
  · intro hzero read
    obtain ⟨v, named⟩ := Clause.parse_text_iff.mp read _ hzero
    exact Literal.not_hasVariable_ofInt_zero v named

/-- A clause of two short numbers. -/
def twoSigns : Clause := ⟨[⟨"7", true⟩, ⟨"12", false⟩], List.cons_ne_nil _ _⟩

/-- The clause of the least and the greatest integer. -/
def extremes : Clause := ⟨[⟨"2147483648", false⟩, ⟨"2147483647", true⟩], List.cons_ne_nil _ _⟩

/-- A clause that has the literal of zero between two others. -/
def zeroBetween : Clause := ⟨[⟨"1", true⟩, Literal.ofInt 0, ⟨"3", true⟩], List.cons_ne_nil _ _⟩

/-- A clause that was read with a leading zero, one that was made of integers, and one with zero, of
which only the first literal is read again. -/
theorem written_clause_reads_back_twoSigns :
    (Clause.parse "7 -012 0 5".toList = .ok twoSigns ∧ twoSigns.text = "7 -12 0" ∧
      Clause.parse "7 -12 0".toList = .ok twoSigns) ∧
    ((∀ v ∈ [-2147483648, 2147483647], v ≠ 0 ∧ FitsSigned32 v) ∧
      Clause.ofLiterals ([-2147483648, 2147483647].map Literal.ofInt) = .ok extremes ∧
      Clause.parse extremes.text.toList = .ok extremes) ∧
    Literal.ofInt 0 ∈ zeroBetween.literals ∧ zeroBetween.text = "1 -0 3 0" ∧
      Clause.parse "1 -0 3 0".toList ≠ .ok zeroBetween ∧
      Clause.parse "1 -0 3 0".toList = .ok ⟨[⟨"1", true⟩], List.cons_ne_nil _ _⟩ := by
  have read : Clause.parse "7 -012 0 5".toList = .ok twoSigns := by decide
  have text : twoSigns.text = "7 -12 0" := by decide
  have again := (written_clause_reads_back twoSigns).2.1 _ read
  rw [text] at again
  have fit : ∀ v ∈ [-2147483648, 2147483647], v ≠ 0 ∧ FitsSigned32 v := by
    rw [List.forall_mem_cons, List.forall_mem_singleton]
    exact ⟨⟨by decide, by decide, by decide⟩, ⟨by decide, by decide, by decide⟩⟩
  have made : Clause.ofLiterals ([-2147483648, 2147483647].map Literal.ofInt) = .ok extremes := rfl
  have zero : Literal.ofInt 0 ∈ zeroBetween.literals := by decide
  have zeroText : zeroBetween.text = "1 -0 3 0" := by decide
  have misread := (written_clause_reads_back zeroBetween).2.2.2 zero
  rw [zeroText] at misread
  exact ⟨⟨read, text, again⟩, ⟨fit, made, (written_clause_reads_back extremes).2.2.1 _ fit made⟩,
    zero, zeroText, misread, by decide⟩

end CnfSearch

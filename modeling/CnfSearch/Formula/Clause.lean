import CnfSearch.Formula.Literal
import CnfSearch.Text.Blank

set_option autoImplicit false

/-!
# Clauses

A clause is a non-empty sequence of literals, read as their disjunction. Order and repetition of
literals are kept. A written clause ends at the token `0`; what follows it on the line is ignored.
-/

namespace CnfSearch

/-- A disjunction of one or more literals, in the order in which they were given. -/
structure Clause where
  literals : List Literal
  nonempty : literals ≠ []
  deriving DecidableEq

/-- A conjunction of clauses, in the order in which they were given. -/
abbrev Cnf := List Clause

namespace Clause

/-- A clause of given literals; the empty list is refused. -/
def ofLiterals : List Literal → Except ReadError Clause
  | [] => .error .emptyClause
  | l :: ls => .ok ⟨l :: ls, List.cons_ne_nil l ls⟩

/-- Whether a token ends a written clause: a zero, with or without a minus sign. -/
def isTerminator (token : List Char) : Bool := token == ['0'] || token == ['-', '0']

/-- The tokens of a line that stand before its terminator. -/
def tokens (line : List Char) : List (List Char) :=
  (Text.words line).takeWhile fun token => !isTerminator token

/-- Read a written clause; the first token that is no literal is named. -/
def parse (line : List Char) : Except ReadError Clause := do
  ofLiterals (← (tokens line).mapM Literal.parse)

/-- The first literal. -/
def first (c : Clause) : Literal := c.literals.head c.nonempty

/-- The number of literals, repetitions included. -/
def length (c : Clause) : Nat := c.literals.length

theorem length_pos (c : Clause) : 0 < c.length := List.length_pos_iff.mpr c.nonempty

/-- The literal at a position below the clause's length. -/
def get (c : Clause) (i : Fin c.length) : Literal := c.literals.get i

/-- The literal of a clause that has just one. -/
def sole? (c : Clause) : Option Literal :=
  match c.literals with
  | [l] => some l
  | _ => none

/-- Whether the clause has just one literal. -/
def isUnit (c : Clause) : Bool := c.length == 1

/-- Whether a literal stands in the clause. -/
def contains (c : Clause) (l : Literal) : Bool := c.literals.contains l

/-- The written form: the literals and the terminator, one blank apart. -/
def text (c : Clause) : String := " ".intercalate (c.literals.map Literal.text) ++ " 0"

theorem first_mem (c : Clause) : c.first ∈ c.literals := List.head_mem c.nonempty

theorem get_mem (c : Clause) (i : Fin c.length) : c.get i ∈ c.literals := List.get_mem c.literals i

theorem sole?_eq_some_iff {c : Clause} {l : Literal} : c.sole? = some l ↔ c.literals = [l] := by
  rw [sole?]
  split
  next k h => simp [h]
  next h =>
    constructor
    · intro hl
      cases hl
    · intro hl
      exact absurd hl (h l)

/-- The literals that a clause was made of are its literals. -/
theorem ofLiterals_eq_ok_iff {ls : List Literal} {c : Clause} :
    ofLiterals ls = .ok c ↔ c.literals = ls := by
  cases ls with
  | nil =>
    constructor
    · intro h
      cases h
    · intro h
      exact absurd h c.nonempty
  | cons l ls =>
    constructor
    · intro h
      cases h
      rfl
    · intro h
      cases c with
      | mk literals nonempty =>
        cases h
        rfl

end Clause

end CnfSearch

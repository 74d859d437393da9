import CnfSearch.Text.Numeral

set_option autoImplicit false

/-!
# Literals

A literal is a symbol asserted to be true or to be false. Symbols are arbitrary names; the literals
of a numbered problem have as symbol the decimal text of a positive number. Main statements:
`Literal.opposite_opposite`, and `Literal.eq_or_eq_opposite`, by which a symbol has two literals.
-/

namespace CnfSearch

/-- The name of a propositional variable. -/
abbrev Symbol := String

/-- A symbol together with the truth value that it is asserted to have. -/
structure Literal where
  symbol : Symbol
  positive : Bool
  deriving DecidableEq, Hashable, Inhabited

/-- Why a text or a list of literals is no clause. -/
inductive ReadError where
  | emptyClause
  | invalidLiteral (token : String)
  deriving DecidableEq

/-- The wording of a refused clause. -/
def ReadError.message : ReadError → String
  | .emptyClause => "The clause string cannot be empty"
  | .invalidLiteral token => "Invalid literal '" ++ token ++ "'"

namespace Literal

/-- The same symbol with the other truth value. -/
def opposite (l : Literal) : Literal := { l with positive := !l.positive }

@[simp] theorem symbol_opposite (l : Literal) : l.opposite.symbol = l.symbol := rfl

@[simp] theorem positive_opposite (l : Literal) : l.opposite.positive = !l.positive := rfl

@[simp] theorem opposite_opposite (l : Literal) : l.opposite.opposite = l := by
  cases l
  simp [opposite]

theorem opposite_ne (l : Literal) : l.opposite ≠ l := by
  intro h
  have sign := congrArg Literal.positive h
  simp at sign

/-- Two literals of one symbol are equal or opposite. -/
theorem eq_or_eq_opposite {a b : Literal} (h : a.symbol = b.symbol) : a = b ∨ a = b.opposite := by
  rcases a with ⟨s, p⟩
  rcases b with ⟨t, q⟩
  cases h
  cases p <;> cases q <;> simp [opposite]

/-- Whether the symbol is asserted to be false. -/
def isNegated (l : Literal) : Bool := !l.positive

/-- The written form: the symbol, after a minus sign if it is asserted to be false. -/
def text (l : Literal) : String := if l.positive then l.symbol else "-" ++ l.symbol

/-- Literals in order of their symbols, byte by byte; of one symbol, the negative one first. -/
instance : Ord Literal where
  compare a b := (compare a.symbol b.symbol).then (compare a.positive b.positive)

/-- The literal of the variable with a given number. -/
def ofVariable (number : Nat) (positive : Bool) : Literal := ⟨number.repr, positive⟩

/-- The literal that an integer stands for: its absolute value is the variable, and only integers
above zero are positive. -/
def ofInt (value : Int) : Literal := ofVariable value.natAbs (decide (0 < value))

/-- The greatest number that a variable can have in a text. -/
def greatestVariable : Nat := 4294967295

/-- The number of a variable: a numeral without sign whose value is neither zero nor too large. -/
def variableNumber? (digits : List Char) : Option Nat :=
  (Text.natural? digits).filter fun n => decide (0 < n) && decide (n ≤ greatestVariable)

/-- Read a token: the number of a variable, after a minus sign if it is asserted to be false. -/
def read? : List Char → Option Literal
  | '-' :: digits => (variableNumber? digits).map fun n => ofVariable n false
  | digits => (variableNumber? digits).map fun n => ofVariable n true

/-- Read a token, naming it when it is no literal. -/
def parse (token : List Char) : Except ReadError Literal :=
  match read? token with
  | some l => .ok l
  | none => .error (.invalidLiteral (String.ofList token))

end Literal

end CnfSearch

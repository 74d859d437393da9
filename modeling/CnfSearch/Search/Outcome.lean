import CnfSearch.Model.Assignment

set_option autoImplicit false

/-!
# Outcomes of a search

A search answers with an assignment or says why it has none, and it counts its work.
-/

namespace CnfSearch

/-- Why a search has no model to show. -/
inductive Failure where
  /-- There is no model. -/
  | unsatisfiable
  /-- The search stopped after its budget of steps. -/
  | exhausted (steps : Nat)
  /-- A clause mentions a symbol that was not declared, so nothing was searched. -/
  | undeclared (symbol : Symbol)
  deriving DecidableEq

/-- The wording of a failure. -/
def Failure.message : Failure → String
  | .unsatisfiable => "UNSATISFIABLE"
  | .exhausted steps => "no satisfying assignment found within " ++ steps.repr ++ " steps"
  | .undeclared s => "clause references undeclared symbol '" ++ s ++ "'"

/-- Whether a failure proves that there is no model. -/
def Failure.isProof : Failure → Bool
  | .unsatisfiable => true
  | .exhausted _ => false
  | .undeclared _ => false

/-- The wording of a fault; an undecided clause has none. -/
def Fault.message? : Fault → Option String
  | .reassigned s => some ("symbol " ++ s ++ " assigned twice")
  | .undecided => none
  | .capacity => some "capacity overflow"

/-- The answer of a search: an assignment, or why there is none. -/
abbrev Answer := Except Failure Assignment

/-- What a search did. Backtracking counts the first four, a random walk the others. -/
structure Counters where
  decisions : Nat := 0
  propagations : Nat := 0
  pureLiterals : Nat := 0
  conflicts : Nat := 0
  steps : Nat := 0
  randomFlips : Nat := 0
  greedyFlips : Nat := 0
  deriving DecidableEq

namespace Counters

/-- All flips, whether random or greedy. -/
def flips (c : Counters) : Nat := c.randomFlips + c.greedyFlips

/-- The work of two searches together. -/
def add (c d : Counters) : Counters where
  decisions := c.decisions + d.decisions
  propagations := c.propagations + d.propagations
  pureLiterals := c.pureLiterals + d.pureLiterals
  conflicts := c.conflicts + d.conflicts
  steps := c.steps + d.steps
  randomFlips := c.randomFlips + d.randomFlips
  greedyFlips := c.greedyFlips + d.greedyFlips

instance : Add Counters := ⟨add⟩

end Counters

end CnfSearch

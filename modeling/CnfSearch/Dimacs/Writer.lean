import CnfSearch.Problem.Basic

set_option autoImplicit false

/-!
# Writing the DIMACS format

A problem is written as its problem line and one line for each clause.
-/

namespace CnfSearch.Problem

/-- The problem line of a problem. -/
def headerText (p : Problem) : String :=
  "p cnf " ++ p.variableCount.repr ++ " " ++ p.clauseCount.repr

/-- The lines of the written form. -/
def textLines (p : Problem) : List String := p.headerText :: p.clauses.map Clause.text

/-- The written form: every line is closed by a line feed. -/
def text (p : Problem) : String := String.join (p.textLines.map fun line => line ++ "\n")

end CnfSearch.Problem

import CnfSearch.Formula.Clause

set_option autoImplicit false

/-!
# Valuations

The meaning of formulas: a valuation gives every symbol a truth value, and with that every literal,
clause and clause list. A clause list is satisfiable if some valuation makes all its clauses true.
-/

namespace CnfSearch

/-- A truth value for every symbol. -/
abbrev Valuation := Symbol → Bool

/-- The truth of a literal. -/
def Literal.eval (v : Valuation) (l : Literal) : Bool := v l.symbol == l.positive

/-- A clause is true if one of its literals is. -/
def Clause.eval (v : Valuation) (c : Clause) : Bool := c.literals.any (Literal.eval v)

/-- A clause list is true if all its clauses are. -/
def Cnf.eval (v : Valuation) (cnf : Cnf) : Bool := cnf.all (Clause.eval v)

/-- Some valuation makes every clause true. -/
def Cnf.Satisfiable (cnf : Cnf) : Prop := ∃ v : Valuation, Cnf.eval v cnf = true

/-- Opposite literals have opposite truth values. -/
@[simp] theorem Literal.eval_opposite (v : Valuation) (l : Literal) :
    l.opposite.eval v = !l.eval v := by
  cases l with
  | mk symbol positive => cases positive <;> cases h : v symbol <;> simp [eval, opposite, h]

/-- A clause list is true exactly if each clause has a true literal. -/
theorem Cnf.eval_eq_true_iff (v : Valuation) (cnf : Cnf) :
    Cnf.eval v cnf = true ↔ ∀ c ∈ cnf, ∃ l ∈ c.literals, l.eval v = true := by
  simp [Cnf.eval, Clause.eval]

end CnfSearch

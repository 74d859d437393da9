import CnfSearch.Formula.Clause
import CnfSearch.Model.Assignment
import Std.Data.HashSet

set_option autoImplicit false

/-!
# Clauses under a partial assignment

Under a partial assignment a clause is satisfied (one literal true), falsified (all literals false)
or open. This module judges clauses and clause lists, and finds clause symbols that a list of
declared symbols does not name.
-/

namespace CnfSearch

/-- Some literal of the clause is true. -/
def Clause.isSatisfied (a : Assignment) (c : Clause) : Bool := c.literals.any a.holds

/-- Every literal of the clause is false. -/
def Clause.isFalsified (a : Assignment) (c : Clause) : Bool := c.literals.all a.refutes

namespace Cnf

/-- Every clause is satisfied. -/
def allSatisfied (cnf : Cnf) (a : Assignment) : Bool := cnf.all (Clause.isSatisfied a)

/-- The first falsified clause. -/
def firstFalsified? (cnf : Cnf) (a : Assignment) : Option Clause := cnf.find? (Clause.isFalsified a)

/-- The position of the first falsified clause. -/
def firstFalsifiedIndex? (cnf : Cnf) (a : Assignment) : Option Nat :=
  cnf.findIdx? (Clause.isFalsified a)

/-- Some clause is falsified. -/
def anyFalsified (cnf : Cnf) (a : Assignment) : Bool := cnf.any (Clause.isFalsified a)

/-- All literals, clause by clause. -/
def literals (cnf : Cnf) : List Literal := cnf.flatMap Clause.literals

/-- The first symbol, in the order of the clauses and their literals, that is not declared. -/
def firstUndeclared? (cnf : Cnf) (symbols : List Symbol) : Option Symbol :=
  let declared := Std.HashSet.ofList symbols
  ((literals cnf).find? fun l => !declared.contains l.symbol).map Literal.symbol

theorem mem_literals {cnf : Cnf} {l : Literal} : l ∈ literals cnf ↔ ∃ c ∈ cnf, l ∈ c.literals := by
  simp [literals, List.mem_flatMap]

/-- Nothing is undeclared exactly if the symbol of every literal is declared. -/
theorem firstUndeclared?_eq_none_iff {cnf : Cnf} {symbols : List Symbol} :
    firstUndeclared? cnf symbols = none ↔ ∀ c ∈ cnf, ∀ l ∈ c.literals, l.symbol ∈ symbols := by
  simp only [firstUndeclared?, Option.map_eq_none_iff, List.find?_eq_none, mem_literals,
    Bool.not_eq_true', Bool.not_eq_false, Std.HashSet.contains_ofList, List.contains_iff_mem]
  constructor
  · intro h c hc l hl
    exact h l ⟨c, hc, hl⟩
  · rintro h l ⟨c, hc, hl⟩
    exact h c hc l hl

/-- The falsified clause that is found is the first one, so there is one exactly if any is. -/
theorem firstFalsified?_isSome (cnf : Cnf) (a : Assignment) :
    (firstFalsified? cnf a).isSome = anyFalsified cnf a := by
  rw [Bool.eq_iff_iff, firstFalsified?, anyFalsified, List.find?_isSome, List.any_eq_true]

end Cnf

end CnfSearch

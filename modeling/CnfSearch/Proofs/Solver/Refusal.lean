import CnfSearch.Proofs.Backtrack.Decision
import CnfSearch.Proofs.Problem.Numbered
import CnfSearch.Proofs.Walk.Soundness

set_option autoImplicit false

/-!
# What a solver refuses

A solver refuses clauses because of the first symbol that is not declared, and is left as it was
(`solve_of_firstUndeclared`). Declared clauses over distinct symbols are searched, whatever the
solver has done before: the search ends without a fault, and its answer is no refusal
(`exists_solve`).
-/

namespace CnfSearch

/-- The first symbol, clause by clause and literal by literal, that is not declared. -/
def Cnf.FirstUndeclared (cnf : Cnf) (symbols : List Symbol) (s : Symbol) : Prop :=
  ∃ before l after, Cnf.literals cnf = before ++ l :: after ∧
    (∀ k ∈ before, k.symbol ∈ symbols) ∧ l.symbol ∉ symbols ∧ l.symbol = s

namespace Solver

variable {G : Type} [DrawSource G] {cnf : Cnf} {symbols : List Symbol}

theorem solve_of_firstUndeclared {s : Symbol} (solver : Solver G)
    (first : Cnf.FirstUndeclared cnf symbols s) :
    solver.solve cnf symbols = .ok (.error (.undeclared s), solver) := by
  have found : Cnf.firstUndeclared? cnf symbols = some s :=
    Cnf.firstUndeclared?_eq_some_iff.mpr first
  simp only [solve, found]

/-- A search of declared clauses ends, and not with a refusal. -/
theorem exists_solve (distinct : symbols.Nodup)
    (declared : ∀ c ∈ cnf, ∀ l ∈ c.literals, l.symbol ∈ symbols) (solver : Solver G) :
    ∃ answer after, solver.solve cnf symbols = .ok (answer, after) ∧
      ∀ s, answer ≠ .error (.undeclared s) := by
  cases solver with
  | backtracking counters =>
    obtain ⟨answer, work, hsearch, decides⟩ := Backtrack.search_decides distinct declared
    refine ⟨answer, _, solve_backtracking declared hsearch, ?_⟩
    rintro s rfl
    -- Backtracking fails with a proof only.
    cases decides.1
  | walking walker =>
    obtain ⟨answer, t, hsearch, -, ends⟩ :=
      Walk.search_ends walker.settings walker.source distinct declared
    refine ⟨answer, _, solve_walking declared hsearch, ?_⟩
    rintro s rfl
    cases ends

end Solver

end CnfSearch

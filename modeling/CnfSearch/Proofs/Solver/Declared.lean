import CnfSearch.Solver.Basic

set_option autoImplicit false

/-!
# Solving clauses whose symbols are declared

A solver that is given clauses over declared symbols refuses nothing: it hands them to the search of
its strategy and keeps what that search leaves (`solve_backtracking`, `solve_walking`), or fails as
that search does (`solve_backtracking_fault`, `solve_walking_fault`).
-/

namespace CnfSearch.Solver

variable {G : Type} [DrawSource G] {cnf : Cnf} {symbols : List Symbol}
  (declared : ∀ c ∈ cnf, ∀ l ∈ c.literals, l.symbol ∈ symbols)

include declared

theorem solve_backtracking {counters work : Counters} {answer : Answer}
    (h : Backtrack.search cnf symbols = .ok (answer, work)) :
    (Solver.backtracking counters : Solver G).solve cnf symbols =
      .ok (answer, .backtracking work) := by
  simp only [solve, Cnf.firstUndeclared?_eq_none_iff.mpr declared, h]

theorem solve_walking {walker : Walker G} {answer : Answer} {state : Walk.State G}
    (h : Walk.search walker.settings cnf symbols walker.source = .ok (answer, state)) :
    (Solver.walking walker).solve cnf symbols =
      .ok (answer, .walking ⟨walker.settings, state.source, state.counters⟩) := by
  simp only [solve, Cnf.firstUndeclared?_eq_none_iff.mpr declared, h]

theorem solve_backtracking_fault {counters : Counters} {fault : Fault}
    (h : Backtrack.search cnf symbols = .error fault) :
    (Solver.backtracking counters : Solver G).solve cnf symbols = .error fault := by
  simp only [solve, Cnf.firstUndeclared?_eq_none_iff.mpr declared, h]

theorem solve_walking_fault {walker : Walker G} {fault : Fault}
    (h : Walk.search walker.settings cnf symbols walker.source = .error fault) :
    (Solver.walking walker).solve cnf symbols = .error fault := by
  simp only [solve, Cnf.firstUndeclared?_eq_none_iff.mpr declared, h]

end CnfSearch.Solver

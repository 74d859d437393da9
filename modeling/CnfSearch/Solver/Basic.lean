import CnfSearch.Backtrack.Search
import CnfSearch.Problem.Basic
import CnfSearch.Random.Source
import CnfSearch.Walk.Search

set_option autoImplicit false

/-!
# Solvers

A solver is a search strategy with what it keeps from one solve to the next: the counters of the
last search, and for a random walk its settings and its source of draws. Clauses that mention an
undeclared symbol are refused before anything changes.
-/

namespace CnfSearch

/-- A random walk that is ready for its next search. -/
structure Walker (G : Type) where
  settings : Walk.Settings
  source : G
  counters : Counters

/-- A strategy and what it keeps between searches. -/
inductive Solver (G : Type) where
  | backtracking (counters : Counters)
  | walking (walker : Walker G)

namespace Solver

/-- The name under which a solver reports. -/
def name {G : Type} : Solver G → String
  | .backtracking _ => "DPLL"
  | .walking _ => "WalkSAT"

/-- The work of the last search. -/
def counters {G : Type} : Solver G → Counters
  | .backtracking counters => counters
  | .walking walker => walker.counters

/-- Search for a model. -/
def solve {G : Type} [DrawSource G] (solver : Solver G) (cnf : Cnf) (symbols : List Symbol) :
    Except Fault (Answer × Solver G) :=
  match Cnf.firstUndeclared? cnf symbols with
  | some s => .ok (.error (.undeclared s), solver)
  | none =>
    match solver with
    | .backtracking _ =>
      match Backtrack.search cnf symbols with
      | .ok (answer, counters) => .ok (answer, .backtracking counters)
      | .error fault => .error fault
    | .walking walker =>
      match Walk.search walker.settings cnf symbols walker.source with
      | .ok (answer, state) =>
        .ok (answer, .walking ⟨walker.settings, state.source, state.counters⟩)
      | .error fault => .error fault

/-- The log of a solve; clauses that are refused leave none. -/
def log {G : Type} [DrawSource G] (solver : Solver G) (cnf : Cnf) (symbols : List Symbol) :
    List LogEntry :=
  match Cnf.firstUndeclared? cnf symbols with
  | some _ => []
  | none =>
    match solver with
    | .backtracking _ => Backtrack.log cnf symbols
    | .walking walker => Walk.log walker.settings cnf symbols walker.source

/-- Give a walk another source of draws. -/
def withSource {G : Type} (solver : Solver G) (source : G) : Solver G :=
  match solver with
  | .backtracking counters => .backtracking counters
  | .walking walker => .walking { walker with source := source }

end Solver

/-- Solve a problem. -/
def Problem.solve {G : Type} [DrawSource G] (p : Problem) (solver : Solver G) :
    Except Fault (Answer × Solver G) :=
  solver.solve p.clauses p.symbols

end CnfSearch

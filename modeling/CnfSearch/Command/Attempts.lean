import CnfSearch.Command.Options

set_option autoImplicit false

/-!
# Attempts

A solve of a command may take several runs of one solver. The runs stop at the first model, at a
proof that there is none, or when all tries are used; each run goes on with the solver that the one
before it leaves. The work of all runs is added up.
-/

namespace CnfSearch.Command

/-- What came of the runs of a solve. -/
structure Outcome where
  answer : Answer
  counters : Counters
  tries : Nat

/-- Whether another run could change an answer. -/
def isFinal : Answer → Bool
  | .ok _ => true
  | .error failure => failure.isProof

/-- Run a solver once, and again up to a number of times, after some runs whose work is given. -/
def attemptsAfter {G : Type} [DrawSource G] (p : Problem) (solver : Solver G) (done : Counters)
    (tries : Nat) : Nat → Except Fault Outcome
  | 0 =>
    match p.solve solver with
    | .ok (answer, solver) => .ok ⟨answer, done + solver.counters, tries + 1⟩
    | .error fault => .error fault
  | more + 1 =>
    match p.solve solver with
    | .ok (answer, solver) =>
      if isFinal answer then .ok ⟨answer, done + solver.counters, tries + 1⟩
      else attemptsAfter p solver (done + solver.counters) (tries + 1) more
    | .error fault => .error fault

/-- Run a solver until an answer is final, at most a number of times and at least once. -/
def attempts {G : Type} [DrawSource G] (p : Problem) (solver : Solver G) (maxTries : Nat) :
    Except Fault Outcome :=
  attemptsAfter p solver {} 0 (maxTries - 1)

/-- Solve a problem as the options say, with draws from the given source. -/
def solve {G : Type} [DrawSource G] (p : Problem) (options : Options) (source : G) :
    Except CommandError Outcome :=
  match options.strategy.solver options.solverOptions source with
  | .error cause => .error (.noise cause)
  | .ok solver =>
    match attempts p solver options.maxTries with
    | .ok outcome => .ok outcome
    | .error fault => .error (.fault fault)

end CnfSearch.Command

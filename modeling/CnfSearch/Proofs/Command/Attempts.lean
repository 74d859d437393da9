import CnfSearch.Command.Attempts
import CnfSearch.Proofs.Backtrack.Decision
import CnfSearch.Proofs.Walk.Soundness

set_option autoImplicit false

/-!
# What the runs of a solve lead to

Each run leaves a solver of the same kind for the next one, so what one run answers is also what
the last of several answers (`attemptsAfter_of_invariant`). A solve with a noise that is a
probability therefore ends with a model or with the failure of its strategy (`solve_allowed`), and
with any other noise it is refused (`solve_refused`).
-/

namespace CnfSearch.Command

/-- A random walk is given a probability as its noise. -/
def Options.Valid (o : Options) : Prop := o.strategy = .walking → 0 ≤ o.noise ∧ o.noise ≤ 1

/-- The answers to a problem: a model, or without one the failure of the strategy. -/
def Allowed (p : Problem) (options : Options) : Answer → Prop
  | .ok model => model.IsModel p.clauses p.symbols
  | .error failure =>
    match options.strategy with
    | .backtracking => failure = .unsatisfiable ∧ ¬ p.clauses.Satisfiable
    | .walking => failure = .exhausted options.maxSteps

section Runs

variable {G : Type} [DrawSource G] {p : Problem}

/-- If every run from a ready solver answers rightly and leaves a ready solver, the last answer is
right. -/
theorem attemptsAfter_of_invariant {Ready : Solver G → Prop} {Right : Answer → Prop}
    (once : ∀ solver, Ready solver →
      ∃ answer after, p.solve solver = .ok (answer, after) ∧ Right answer ∧ Ready after)
    (solver : Solver G) (done : Counters) (tries more : Nat) (h : Ready solver) :
    ∃ outcome, attemptsAfter p solver done tries more = .ok outcome ∧ Right outcome.answer := by
  -- The induction is on the runs that may follow this one.
  induction more generalizing solver done tries with
  | zero =>
    obtain ⟨answer, after, hsolve, right, -⟩ := once solver h
    rw [attemptsAfter, hsolve]
    exact ⟨_, rfl, right⟩
  | succ more ih =>
    obtain ⟨answer, after, hsolve, right, ready⟩ := once solver h
    rw [attemptsAfter, hsolve]
    dsimp only
    split
    next final => exact ⟨_, rfl, right⟩
    next again => exact ih after _ _ ready

/-- A run of backtracking decides the problem. -/
theorem solve_backtracking_once {options : Options} (hstrategy : options.strategy = .backtracking)
    (counters : Counters) :
    ∃ answer work,
      p.solve (.backtracking counters : Solver G) = .ok (answer, .backtracking work) ∧
        Allowed p options answer := by
  obtain ⟨answer, work, hsearch, decides⟩ := Backtrack.search_decides p.distinct p.declared
  refine ⟨answer, work, Solver.solve_backtracking p.declared hsearch, ?_⟩
  cases answer with
  | ok model => exact decides
  | error failure => simpa [Allowed, Decides, hstrategy] using decides

/-- A run of a walk finds a model or spends its budget, and keeps the settings. -/
theorem solve_walking_once {options : Options} (hstrategy : options.strategy = .walking)
    (walker : Walker G) (hsteps : walker.settings.maxSteps = options.maxSteps) :
    ∃ answer after, p.solve (.walking walker) = .ok (answer, .walking after) ∧
      Allowed p options answer ∧ after.settings = walker.settings := by
  obtain ⟨answer, t, hsearch, honCourse, ends⟩ :=
    Walk.search_ends walker.settings walker.source p.distinct p.declared
  refine ⟨answer, _, Solver.solve_walking p.declared hsearch, ?_, rfl⟩
  cases ends with
  | found satisfied _ =>
    have assigns : t.model.symbols.Perm p.symbols := by rw [honCourse.assigns]
    exact ⟨assigns, Cnf.allSatisfied_iff.mp satisfied⟩
  | exhausted _ => simp [Allowed, hstrategy, hsteps]

end Runs

section Solve

variable {G : Type} [DrawSource G] {options : Options}

/-- With valid options a solve ends with an answer of its strategy. -/
theorem solve_allowed (p : Problem) (valid : options.Valid) (source : G) :
    ∃ outcome, solve p options source = .ok outcome ∧ Allowed p options outcome.answer := by
  cases hstrategy : options.strategy with
  | backtracking =>
    -- Any run of backtracking is ready for another one.
    have once : ∀ solver : Solver G, (∃ counters, solver = .backtracking counters) →
        ∃ answer after, p.solve solver = .ok (answer, after) ∧ Allowed p options answer ∧
          ∃ counters, after = .backtracking counters := by
      rintro _ ⟨counters, rfl⟩
      obtain ⟨answer, work, hsolve, allowed⟩ :=
        solve_backtracking_once (G := G) (p := p) hstrategy counters
      exact ⟨answer, _, hsolve, allowed, work, rfl⟩
    obtain ⟨outcome, hrun, allowed⟩ := attemptsAfter_of_invariant once (.backtracking {}) {} 0
      (options.maxTries - 1) ⟨{}, rfl⟩
    refine ⟨outcome, ?_, allowed⟩
    simp only [solve, Strategy.solver, hstrategy, attempts, hrun]
  | walking =>
    have inRange := valid hstrategy
    -- A walk is ready for another run as long as it keeps the budget of the options.
    have once : ∀ solver : Solver G,
        (∃ walker, solver = .walking walker ∧ walker.settings.maxSteps = options.maxSteps) →
        ∃ answer after, p.solve solver = .ok (answer, after) ∧ Allowed p options answer ∧
          ∃ walker, after = .walking walker ∧ walker.settings.maxSteps = options.maxSteps := by
      rintro _ ⟨walker, rfl, hsteps⟩
      obtain ⟨answer, after, hsolve, allowed, kept⟩ :=
        solve_walking_once (p := p) hstrategy walker hsteps
      exact ⟨answer, _, hsolve, allowed, after, rfl, by rw [kept, hsteps]⟩
    obtain ⟨outcome, hrun, allowed⟩ := attemptsAfter_of_invariant once
      (.walking ⟨⟨⟨options.noise, inRange⟩, options.maxSteps⟩, source, {}⟩) {} 0
      (options.maxTries - 1) ⟨_, rfl, rfl⟩
    refine ⟨outcome, ?_, allowed⟩
    simp only [solve, Strategy.solver, hstrategy, Options.solverOptions, Walk.Noise.ofFloat,
      inRange, and_self, ↓reduceDIte, attempts]
    rw [hrun]

/-- Without a probability as its noise no walk is begun. -/
theorem solve_refused (p : Problem) (hstrategy : options.strategy = .walking)
    (invalid : ¬ (0 ≤ options.noise ∧ options.noise ≤ 1)) (source : G) :
    solve p options source = .error (.noise ⟨options.noise⟩) := by
  simp only [solve, Strategy.solver, hstrategy, Options.solverOptions, Walk.Noise.ofFloat, invalid,
    ↓reduceDIte]

end Solve

end CnfSearch.Command

import CnfSearch.Proofs.Command.Attempts
import CnfSearch.Proofs.Solver.Refusal
import CnfSearch.Random.Generator
import Mathlib.Algebra.GroupWithZero.Nat
import Mathlib.Logic.Function.Iterate
import Mathlib.Tactic.Choose

set_option autoImplicit false

/-!
# How many runs a solve takes

The runs of one solver on a problem follow one sequence, in which each run goes on with the solver
that the one before it leaves (`Runs`). A solve makes the runs of that sequence up to the first with
a final answer, or up to its limit, and adds up their work (`attemptsAfter_eq`). A walk never proves
anything and spends its whole budget when it fails (`Runs.walked`), so the limit on the runs decides
how many steps a solve without a model takes, and a higher one changes nothing about a solve that
finds a model: `solve_stops_at_first_model`.
-/

namespace CnfSearch

/-- The work of several searches together, counter by counter. -/
def Counters.total (work : List Counters) : Counters where
  decisions := (work.map decisions).sum
  propagations := (work.map propagations).sum
  pureLiterals := (work.map pureLiterals).sum
  conflicts := (work.map conflicts).sum
  steps := (work.map steps).sum
  randomFlips := (work.map randomFlips).sum
  greedyFlips := (work.map greedyFlips).sum

theorem Counters.total_append_singleton (work : List Counters) (last : Counters) :
    total (work ++ [last]) = total work + last := by
  simp only [total, List.map_append, List.map_singleton, List.sum_append, List.sum_singleton]
  rfl

namespace Command

variable {G : Type} [DrawSource G]

/-- The runs of a solver on a problem, counted from one: the answer of each run, and the solver that
it leaves to the next one. -/
structure Runs (p : Problem) (first : Solver G) (answers : Nat → Answer)
    (solvers : Nat → Solver G) : Prop where
  begins : solvers 0 = first
  continues : ∀ i, p.solve (solvers i) = .ok (answers (i + 1), solvers (i + 1))

/-- The work of a number of runs. -/
def workOf (solvers : Nat → Solver G) (runs : Nat) : Counters :=
  Counters.total ((List.range runs).map fun i => (solvers (i + 1)).counters)

/-- The number of runs that are made: up to the first that finds a model, or all that are allowed if
none does. No run is made after a proof. -/
structure StopsAt (answers : Nat → Answer) (limit runs : Nat) : Prop where
  positive : 0 < runs
  within : runs ≤ limit
  modelless : ∀ i, 0 < i → i < runs → ∀ model, answers i ≠ .ok model
  unproved : ∀ i, 0 < i → i < runs → answers i ≠ .error .unsatisfiable
  stops : runs = limit ∨ ∃ model, answers runs = .ok model

omit [DrawSource G] in
theorem workOf_succ (solvers : Nat → Solver G) (runs : Nat) :
    workOf solvers (runs + 1) = workOf solvers runs + (solvers (runs + 1)).counters := by
  rw [workOf, List.range_succ, List.map_append, List.map_singleton,
    Counters.total_append_singleton, workOf]

omit [DrawSource G] in
theorem steps_workOf_succ (solvers : Nat → Solver G) (runs : Nat) :
    (workOf solvers (runs + 1)).steps =
      (workOf solvers runs).steps + (solvers (runs + 1)).counters.steps := by
  rw [workOf_succ]
  rfl

/-- A solver can be run on a problem again and again. -/
theorem exists_runs (p : Problem) (first : Solver G) :
    ∃ answers solvers, Runs p first answers solvers := by
  have once : ∀ solver : Solver G, ∃ run : Answer × Solver G, p.solve solver = .ok run := by
    intro solver
    obtain ⟨answer, after, hsolve, -⟩ := solver.exists_solve p.distinct p.declared
    exact ⟨_, hsolve⟩
  choose run hrun using once
  let solvers : Nat → Solver G := fun i => (fun solver => (run solver).2)^[i] first
  refine ⟨fun i => (run (solvers (i - 1))).1, solvers, rfl, fun i => ?_⟩
  rw [hrun, Nat.add_sub_cancel]
  simp only [solvers, Function.iterate_succ_apply']

/-! ## The loop -/

/-- From any run on, the loop makes runs up to the first with a final answer, or up to its limit.
The work and the number of the runs before are those of the first runs of the sequence. -/
theorem attemptsAfter_eq {p : Problem} {first : Solver G} {answers : Nat → Answer}
    {solvers : Nat → Solver G} (runs : Runs p first answers solvers) (made more : Nat) :
    ∃ t, made < t ∧ t ≤ made + 1 + more ∧
      attemptsAfter p (solvers made) (workOf solvers made) made more =
        .ok ⟨answers t, workOf solvers t, t⟩ ∧
      (∀ i, made < i → i < t → isFinal (answers i) = false) ∧
      (t = made + 1 + more ∨ isFinal (answers t) = true) := by
  -- The induction is on the runs that may follow the next one.
  induction more generalizing made with
  | zero =>
    refine ⟨made + 1, by omega, by omega, ?_, by omega, Or.inl rfl⟩
    rw [attemptsAfter, runs.continues, workOf_succ]
  | succ more ih =>
    rw [attemptsAfter, runs.continues]
    dsimp only
    split
    next final =>
      exact ⟨made + 1, by omega, by omega, by rw [workOf_succ], by omega, Or.inr final⟩
    next again =>
      rw [Bool.not_eq_true] at again
      obtain ⟨t, later, within, hloop, before, stops⟩ := ih (made + 1)
      refine ⟨t, by omega, by omega, ?_, fun i hmade hi => ?_, ?_⟩
      · rw [← workOf_succ, hloop]
      · rcases Nat.eq_or_lt_of_le hmade with rfl | hlater
        · exact again
        · exact before i hlater hi
      · exact stops.imp_left fun limit => by omega

/-! ## Runs of a walk -/

/-- How a run of a walk ends: with a model and steps left, or with a spent budget. -/
inductive Walked (budget : Nat) : Answer → Counters → Prop where
  | found {model : Assignment} {work : Counters} (early : work.steps < budget) :
      Walked budget (.ok model) work
  | exhausted {work : Counters} (spent : work.steps = budget) :
      Walked budget (.error (.exhausted budget)) work

/-- The only final answer of a walk is a model. -/
theorem Walked.exists_model {budget : Nat} {answer : Answer} {work : Counters}
    (walked : Walked budget answer work) (final : isFinal answer = true) :
    ∃ model, answer = .ok model := by
  cases walked with
  | found => exact ⟨_, rfl⟩
  | exhausted => cases final

theorem walked_of_solve {p : Problem} {walker : Walker G} {answer : Answer} {after : Solver G}
    (h : p.solve (.walking walker) = .ok (answer, after)) :
    ∃ left, after = .walking left ∧ left.settings = walker.settings ∧
      Walked walker.settings.maxSteps answer left.counters := by
  obtain ⟨_, t, hsearch, -, ends⟩ :=
    Walk.search_ends walker.settings walker.source p.distinct p.declared
  rw [Problem.solve, Solver.solve_walking p.declared hsearch] at h
  cases h
  refine ⟨_, rfl, rfl, ?_⟩
  cases ends with
  | found _ early => exact .found early
  | exhausted spent => exact .exhausted spent

section Walking

variable {p : Problem} {walker : Walker G} {answers : Nat → Answer} {solvers : Nat → Solver G}
  (runs : Runs p (.walking walker) answers solvers)

include runs

/-- Every run is handed a walk with the settings of the first one. -/
theorem Runs.exists_walker (i : Nat) :
    ∃ left, solvers i = .walking left ∧ left.settings = walker.settings := by
  induction i with
  | zero => exact ⟨walker, runs.begins, rfl⟩
  | succ i ih =>
    obtain ⟨before, hbefore, settings⟩ := ih
    have hrun := runs.continues i
    rw [hbefore] at hrun
    obtain ⟨left, hleft, kept, -⟩ := walked_of_solve hrun
    exact ⟨left, hleft, kept.trans settings⟩

theorem Runs.walked (i : Nat) :
    Walked walker.settings.maxSteps (answers (i + 1)) (solvers (i + 1)).counters := by
  obtain ⟨before, hbefore, settings⟩ := runs.exists_walker i
  have hrun := runs.continues i
  rw [hbefore] at hrun
  obtain ⟨left, hleft, -, walked⟩ := walked_of_solve hrun
  rw [hleft, ← settings]
  exact walked

/-- Runs without a model spend one budget each. -/
theorem Runs.steps_workOf {made : Nat}
    (modelless : ∀ i, 0 < i → i ≤ made → ∀ model, answers i ≠ .ok model) :
    (workOf solvers made).steps = made * walker.settings.maxSteps := by
  induction made with
  | zero => simp [workOf, Counters.total]
  | succ made ih =>
    have spent : (solvers (made + 1)).counters.steps = walker.settings.maxSteps := by
      have walked := runs.walked made
      generalize hanswer : answers (made + 1) = answer at walked
      cases walked with
      | found => exact absurd hanswer (modelless (made + 1) (by omega) (by omega) _)
      | exhausted spent => exact spent
    have before := ih fun i hi hmade => modelless i hi (by omega)
    rw [steps_workOf_succ, before, spent, Nat.succ_mul]

/-- A solve that fails has made all its runs and spent the budget in each. -/
theorem StopsAt.of_failure {limit t : Nat} {failure : Failure} (h : StopsAt answers limit t)
    (failed : answers t = .error failure) :
    failure = .exhausted walker.settings.maxSteps ∧ t = limit ∧
      (workOf solvers t).steps = limit * walker.settings.maxSteps := by
  obtain ⟨made, rfl⟩ : ∃ made, t = made + 1 := ⟨t - 1, by have := h.positive; omega⟩
  have walked := runs.walked made
  rw [failed] at walked
  cases walked with
  | exhausted _ =>
    have modelless : ∀ model, answers (made + 1) ≠ .ok model := by
      intro model found
      rw [failed] at found
      cases found
    have all : made + 1 = limit := h.stops.resolve_right fun ⟨model, found⟩ => modelless model found
    refine ⟨rfl, all, ?_⟩
    rw [← all]
    apply runs.steps_workOf
    intro i hi hmade
    rcases Nat.eq_or_lt_of_le hmade with rfl | earlier
    · exact modelless
    · exact h.modelless i hi earlier

/-- A solve that finds a model has spent the budget in all runs but the last one. -/
theorem StopsAt.of_model {limit t : Nat} {model : Assignment} (h : StopsAt answers limit t)
    (found : answers t = .ok model) :
    (t - 1) * walker.settings.maxSteps ≤ (workOf solvers t).steps ∧
      (workOf solvers t).steps < t * walker.settings.maxSteps := by
  obtain ⟨made, rfl⟩ : ∃ made, t = made + 1 := ⟨t - 1, by have := h.positive; omega⟩
  have before : (workOf solvers made).steps = made * walker.settings.maxSteps :=
    runs.steps_workOf fun i hi hmade => h.modelless i hi (Nat.lt_succ_of_le hmade)
  have walked := runs.walked made
  rw [found] at walked
  cases walked with
  | found early =>
    rw [steps_workOf_succ, before, Nat.add_sub_cancel, Nat.succ_mul]
    exact ⟨Nat.le_add_right _ _, Nat.add_lt_add_left early _⟩

end Walking

/-! ## Solves -/

theorem Options.maxTries_pos (o : Options) : 0 < o.maxTries := by
  rw [Options.maxTries]
  split
  · exact Nat.one_pos
  · omega

theorem Options.maxTries_mono (o : Options) {more : Nat} (le : o.tries ≤ more) :
    o.maxTries ≤ ({ o with tries := more } : Options).maxTries := by
  simp only [Options.maxTries]
  split <;> omega

omit [DrawSource G] in
/-- With valid options a solver is made. -/
theorem exists_solver {options : Options} (valid : options.Valid) (source : G) :
    ∃ first, options.strategy.solver options.solverOptions source = .ok first := by
  cases hstrategy : options.strategy with
  | backtracking => exact ⟨_, rfl⟩
  | walking =>
    have inRange := valid hstrategy
    simp only [Strategy.solver, Options.solverOptions, Walk.Noise.ofFloat, inRange, and_self,
      ↓reduceDIte, Except.ok.injEq, exists_eq']

omit [DrawSource G] in
/-- A walk is made with the budget of the options. -/
theorem exists_walker_of_solver {options : Options} {source : G} {first : Solver G}
    (hstrategy : options.strategy = .walking)
    (made : options.strategy.solver options.solverOptions source = .ok first) :
    ∃ walker, first = .walking walker ∧ walker.settings.maxSteps = options.maxSteps := by
  rw [hstrategy, Strategy.solver] at made
  split at made
  · cases made
  · cases made
    exact ⟨_, rfl, rfl⟩

/-- A solve makes the runs of its solver up to the first that finds a model, and adds them up. -/
theorem exists_solve_of_runs {p : Problem} (options : Options) {source : G} {first : Solver G}
    {answers : Nat → Answer} {solvers : Nat → Solver G}
    (made : options.strategy.solver options.solverOptions source = .ok first)
    (runs : Runs p first answers solvers) :
    ∃ t, StopsAt answers options.maxTries t ∧
      solve p options source = .ok ⟨answers t, workOf solvers t, t⟩ := by
  obtain ⟨t, positive, within, hloop, before, stops⟩ :=
    attemptsAfter_eq runs 0 (options.maxTries - 1)
  have limit := options.maxTries_pos
  rw [runs.begins] at hloop
  refine ⟨t, ⟨positive, by omega, ?_, ?_, ?_⟩, ?_⟩
  · intro i hi hlater model found
    have again := before i hi hlater
    rw [found] at again
    cases again
  · intro i hi hlater proved
    have again := before i hi hlater
    rw [proved] at again
    cases again
  · cases hstrategy : options.strategy with
    | backtracking =>
      -- Backtracking is run once, whatever it answers.
      have once : options.maxTries = 1 := by rw [Options.maxTries, hstrategy]
      exact Or.inl (by omega)
    | walking =>
      obtain ⟨walker, rfl, -⟩ := exists_walker_of_solver hstrategy made
      refine stops.imp (fun h => by omega) fun final => ?_
      obtain ⟨made, rfl⟩ : ∃ made, t = made + 1 := ⟨t - 1, by omega⟩
      exact (runs.walked made).exists_model final
  · have started : workOf solvers 0 = {} := rfl
    rw [started] at hloop
    simp only [solve, made, attempts, hloop]

/-- A higher limit changes nothing about runs that stop at a model. -/
theorem StopsAt.eq_of_le {answers : Nat → Answer} {limit more t u : Nat} {model : Assignment}
    (h : StopsAt answers limit t) (found : answers t = .ok model) (le : limit ≤ more)
    (h' : StopsAt answers more u) : u = t := by
  rcases Nat.lt_trichotomy u t with earlier | same | later
  · rcases h'.stops with hlimit | ⟨other, found'⟩
    · have := h.within
      omega
    · exact absurd found' (h.modelless u h'.positive earlier other)
  · exact same
  · exact absurd found (h'.modelless t h.positive later model)

/-- With a valid noise, a solve runs its solver up to the first run that finds a model, and
otherwise as often as it may: once by backtracking, and by walking as often as the options say, but
at least once. Each run goes on with what the one before it leaves, none follows a proof, and the
solve reports the answer of the last run, the number of runs and the work of all of them. A solve by
walking that fails has spent its budget in every run; one that finds a model has spent it in all
runs but the last one. A solve that finds a model is the same with more tries. -/
theorem solve_stops_at_first_model (p : Problem) (options : Options) (valid : options.Valid)
    (source : G) :
    ∃ first answers solvers outcome,
      options.strategy.solver options.solverOptions source = .ok first ∧
      Runs p first answers solvers ∧
      solve p options source = .ok outcome ∧
      StopsAt answers options.maxTries outcome.tries ∧
      outcome.answer = answers outcome.tries ∧
      outcome.counters = workOf solvers outcome.tries ∧
      (options.strategy = .walking →
        (∀ failure, outcome.answer = .error failure →
          failure = .exhausted options.maxSteps ∧ outcome.tries = options.maxTries ∧
            outcome.counters.steps = options.maxTries * options.maxSteps) ∧
        ∀ model, outcome.answer = .ok model →
          (outcome.tries - 1) * options.maxSteps ≤ outcome.counters.steps ∧
            outcome.counters.steps < outcome.tries * options.maxSteps) ∧
      ∀ model more, outcome.answer = .ok model → options.tries ≤ more →
        solve p { options with tries := more } source = .ok outcome := by
  obtain ⟨first, made⟩ := exists_solver valid source
  obtain ⟨answers, solvers, runs⟩ := exists_runs p first
  obtain ⟨t, stops, hsolve⟩ := exists_solve_of_runs options made runs
  refine ⟨first, answers, solvers, ⟨answers t, workOf solvers t, t⟩, made, runs, hsolve, stops,
    rfl, rfl, ?_, ?_⟩
  · intro hstrategy
    obtain ⟨walker, rfl, budget⟩ := exists_walker_of_solver hstrategy made
    rw [← budget]
    exact ⟨fun failure failed => stops.of_failure runs failed,
      fun model found => stops.of_model runs found⟩
  · intro model more found le
    -- The solver is made of the same options, and so its runs are the same.
    obtain ⟨u, stops', hsolve'⟩ := exists_solve_of_runs { options with tries := more } made runs
    obtain rfl : u = t := stops.eq_of_le found (options.maxTries_mono le) stops'
    exact hsolve'

/-- On a contradiction a walk of three tries fails in each and takes all their steps. -/
theorem solve_stops_at_first_model_contradiction :
    Options.Valid { strategy := .walking, maxSteps := 50, tries := 3 } ∧
      ∃ outcome, solve ⟨contradiction, ["a"], by decide, by decide⟩
          { strategy := .walking, maxSteps := 50, tries := 3 } (Generator.ofSeed 9) = .ok outcome ∧
        outcome.answer = .error (.exhausted 50) ∧ outcome.tries = 3 ∧
        outcome.counters.steps = 150 := by
  have valid : Options.Valid { strategy := .walking, maxSteps := 50, tries := 3 } :=
    fun _ => by decide
  obtain ⟨-, -, -, outcome, -, -, hsolve, -, -, -, walks, -⟩ :=
    solve_stops_at_first_model ⟨contradiction, ["a"], by decide, by decide⟩ _ valid
      (Generator.ofSeed 9)
  obtain ⟨ended, hended, allowed⟩ :=
    solve_allowed ⟨contradiction, ["a"], by decide, by decide⟩ valid (Generator.ofSeed 9)
  obtain rfl : ended = outcome := Except.ok.inj (hended.symm.trans hsolve)
  refine ⟨valid, ended, hsolve, ?_⟩
  cases hanswer : ended.answer with
  | ok model =>
    rw [hanswer] at allowed
    obtain ⟨v, hv⟩ := Assignment.IsModel.satisfiable allowed
    cases hvalue : v "a" <;> simp [contradiction, Cnf.eval, Clause.eval, Literal.eval, hvalue] at hv
  | error failure =>
    obtain ⟨rfl, tries, steps⟩ := (walks rfl).1 failure hanswer
    exact ⟨rfl, tries, steps⟩

end Command

end CnfSearch

import CnfSearch.Proofs.Model.Meaning
import CnfSearch.Proofs.Solver.Declared
import CnfSearch.Random.Generator
import CnfSearch.Walk.Search

set_option autoImplicit false

/-!
# What a random walk can answer

A walk starts from an assignment of all symbols and only flips values, so at every step each clause
is either satisfied or falsified, and there is a clause to repair unless all are satisfied. It also
counts every step as one flip. `State.OnCourse` is this invariant, `State.OnCourse.flip` its step
and `run_ends` its run: a walk ends with a model before its budget is spent, or with a spent budget.
Nothing is assumed of the draws.
-/

namespace CnfSearch

/-- The work of a walk: every step is a flip, and nothing is counted that backtracking does. -/
structure Counters.OfWalk (c : Counters) : Prop where
  flips : c.randomFlips + c.greedyFlips = c.steps
  decisions : c.decisions = 0
  propagations : c.propagations = 0
  pureLiterals : c.pureLiterals = 0
  conflicts : c.conflicts = 0

namespace Walk

variable {G : Type}

/-! ## The course of a walk -/

namespace State

/-- A walk assigns exactly the declared symbols, and what it counts is the work of a walk. -/
structure OnCourse (symbols : List Symbol) (s : State G) : Prop where
  assigns : s.model.symbols = symbols
  work : s.counters.OfWalk

variable {symbols : List Symbol} {s : State G}

/-- A flip keeps the assigned symbols and is counted once, as random or as greedy. -/
theorem OnCourse.flip (h : s.OnCourse symbols) (choice : Choice) (source : G) :
    (s.flip choice source).OnCourse symbols := by
  obtain ⟨assigns, flips, decisions, propagations, pureLiterals, conflicts⟩ := h
  refine ⟨?_, ?_, decisions, propagations, pureLiterals, conflicts⟩
  · exact (Assignment.symbols_flip _ _).trans assigns
  · simp only [State.flip]
    split <;> omega

/-- On course, a clause is falsified unless all are satisfied. -/
theorem OnCourse.exists_falsified {cnf : Cnf} (h : s.OnCourse symbols)
    (declared : ∀ c ∈ cnf, ∀ l ∈ c.literals, l.symbol ∈ symbols)
    (unsatisfied : Cnf.allSatisfied cnf s.model = false) :
    ∃ c, Cnf.firstFalsified? cnf s.model = some c := by
  apply Cnf.exists_firstFalsified _ unsatisfied
  rw [h.assigns]
  exact declared

end State

/-- How a walk ends: its last assignment satisfies every clause and steps are left, or its budget
is spent. -/
inductive Ends (cnf : Cnf) (settings : Settings) : Answer → State G → Prop where
  | found {s : State G} (satisfied : Cnf.allSatisfied cnf s.model = true)
      (early : s.counters.steps < settings.maxSteps) : Ends cnf settings (.ok s.model) s
  | exhausted {s : State G} (spent : s.counters.steps = settings.maxSteps) :
      Ends cnf settings (.error (.exhausted settings.maxSteps)) s

/-! ## Runs -/

variable [DrawSource G]

theorem State.steps_repair (f : Formula) (noise : Noise) (s : State G) (c : Clause) :
    (s.repair f noise c).counters.steps = s.counters.steps + 1 := rfl

/-- A step of a run repairs the first falsified clause. -/
theorem State.run_of_firstFalsified {f : Formula} {s : State G} {c : Clause}
    (first : Cnf.firstFalsified? f.clauses s.model = some c) (settings : Settings) (budget : Nat) :
    s.run f settings (budget + 1) = (s.repair f settings.noise c).run f settings budget := by
  rw [run, Cnf.allSatisfied_of_firstFalsified first, if_neg Bool.false_ne_true, first]

/-- The states of a walk go on behind such a step. -/
theorem State.states_of_firstFalsified {f : Formula} {s : State G} {c : Clause}
    (first : Cnf.firstFalsified? f.clauses s.model = some c) (settings : Settings) (budget : Nat) :
    s.states f settings (budget + 1) =
      s :: (s.repair f settings.noise c).states f settings budget := by
  rw [states, Cnf.allSatisfied_of_firstFalsified first, if_neg Bool.false_ne_true, first]

/-- From a state on course a walk ends, on course. -/
theorem run_ends {f : Formula} {symbols : List Symbol}
    (declared : ∀ c ∈ f.clauses, ∀ l ∈ c.literals, l.symbol ∈ symbols) (settings : Settings)
    (s : State G) (budget : Nat) (h : s.OnCourse symbols)
    (left : s.counters.steps + budget = settings.maxSteps) :
    ∃ answer t, s.run f settings budget = .ok (answer, t) ∧ t.OnCourse symbols ∧
      Ends f.clauses settings answer t := by
  -- The induction is on the steps that are left; with those made they are the whole budget.
  induction budget generalizing s with
  | zero => exact ⟨_, s, rfl, h, .exhausted left⟩
  | succ budget ih =>
    cases satisfied : Cnf.allSatisfied f.clauses s.model with
    | true =>
      rw [State.run, if_pos satisfied]
      exact ⟨_, s, rfl, h, .found satisfied (by omega)⟩
    | false =>
      obtain ⟨c, hc⟩ := h.exists_falsified declared satisfied
      rw [State.run_of_firstFalsified hc]
      apply ih
      · exact h.flip _ _
      · rw [State.steps_repair]
        omega

/-- The drawn literals have the symbols that they were drawn for. -/
theorem map_symbol_randomLiterals (source : G) (symbols : List Symbol) :
    (randomLiterals source symbols).1.map Literal.symbol = symbols := by
  induction symbols generalizing source with
  | nil => rfl
  | cons s rest ih => rw [randomLiterals, List.map_cons, ih]

/-- A walk starts on course, with the literals that were drawn. -/
theorem exists_start {symbols : List Symbol} (distinct : symbols.Nodup) (source : G) :
    ∃ s, start symbols source = .ok s ∧ s.model.toList = (randomLiterals source symbols).1 ∧
      s.OnCourse symbols ∧ s.counters = {} := by
  have hsymbols := map_symbol_randomLiterals source symbols
  have fresh : ((randomLiterals source symbols).1.map Literal.symbol).Nodup := by
    rw [hsymbols]
    exact distinct
  obtain ⟨model, hmodel, hlist⟩ := Assignment.exists_ofLiterals _ fresh
  refine ⟨⟨model, (randomLiterals source symbols).2, {}⟩, ?_, hlist,
    ⟨?_, rfl, rfl, rfl, rfl, rfl⟩, rfl⟩
  · simp only [start, hmodel]
  · simpa [Assignment.symbols, hlist] using hsymbols

theorem start_onCourse {symbols : List Symbol} (distinct : symbols.Nodup) (source : G) :
    ∃ s, start symbols source = .ok s ∧ s.OnCourse symbols ∧ s.counters = {} := by
  obtain ⟨s, hstart, -, honCourse, hfresh⟩ := exists_start distinct source
  exact ⟨s, hstart, honCourse, hfresh⟩

/-- A search for a model of declared clauses ends, on course. -/
theorem search_ends (settings : Settings) {cnf : Cnf} {symbols : List Symbol} (source : G)
    (distinct : symbols.Nodup) (declared : ∀ c ∈ cnf, ∀ l ∈ c.literals, l.symbol ∈ symbols) :
    ∃ answer t, search settings cnf symbols source = .ok (answer, t) ∧ t.OnCourse symbols ∧
      Ends cnf settings answer t := by
  obtain ⟨s, hstart, honCourse, hfresh⟩ := start_onCourse distinct source
  rw [search, hstart]
  have left : s.counters.steps + settings.maxSteps = settings.maxSteps := by simp [hfresh]
  exact run_ends (f := .ofCnf cnf) declared settings s settings.maxSteps honCourse left

end Walk

/-- A walk ends, without a fault, with a model of exactly the declared symbols before its budget is
spent, or with a spent budget and the failure that says so. Either way it counts each step as one
flip and nothing that backtracking counts. Without a model it spends its budget. -/
theorem walking_sound {G : Type} [DrawSource G] (walker : Walker G) (cnf : Cnf)
    (symbols : List Symbol) (distinct : symbols.Nodup)
    (declared : ∀ c ∈ cnf, ∀ l ∈ c.literals, l.symbol ∈ symbols) :
    ∃ answer after, (Solver.walking walker).solve cnf symbols = .ok (answer, .walking after) ∧
      after.settings = walker.settings ∧ after.counters.OfWalk ∧
      ((∃ model, answer = .ok model ∧ model.toList.map Literal.symbol = symbols ∧
          (∀ c ∈ cnf, ∃ l ∈ c.literals, model.holds l = true) ∧
          after.counters.steps < walker.settings.maxSteps) ∨
        (answer = .error (.exhausted walker.settings.maxSteps) ∧
          after.counters.steps = walker.settings.maxSteps)) ∧
      ((¬ ∃ v : Valuation, Cnf.eval v cnf = true) →
        answer = .error (.exhausted walker.settings.maxSteps)) := by
  obtain ⟨answer, t, hsearch, honCourse, ends⟩ :=
    Walk.search_ends walker.settings walker.source distinct declared
  refine ⟨answer, _, Solver.solve_walking declared hsearch, rfl, honCourse.work, ?_⟩
  cases ends with
  | found satisfied early =>
    refine ⟨Or.inl ⟨t.model, rfl, honCourse.assigns, ?_, early⟩, fun unsatisfiable => ?_⟩
    · intro c hc
      obtain ⟨l, hl, held⟩ := Cnf.allSatisfied_iff.mp satisfied c hc
      exact ⟨l, hl, (t.model.holds_iff l).mpr held⟩
    · exact absurd (Cnf.satisfiable_of_allSatisfied satisfied) unsatisfiable
  | exhausted spent => exact ⟨Or.inr ⟨rfl, spent⟩, fun _ => rfl⟩

/-- A symbol that has to be both true and false. -/
def contradiction : Cnf := [⟨[⟨"a", true⟩], by simp⟩, ⟨[⟨"a", false⟩], by simp⟩]

/-- On a contradiction every walk spends its budget, here one of three steps. -/
theorem walking_sound_contradiction :
    ["a"].Nodup ∧ (∀ c ∈ contradiction, ∀ l ∈ c.literals, l.symbol ∈ ["a"]) ∧
      (¬ ∃ v : Valuation, Cnf.eval v contradiction = true) ∧
      ∃ after, (Solver.walking ⟨⟨⟨0.5, by decide⟩, 3⟩, Generator.ofSeed 1, {}⟩).solve contradiction
        ["a"] = .ok (.error (.exhausted 3), .walking after) := by
  have distinct : ["a"].Nodup := by decide
  have declared : ∀ c ∈ contradiction, ∀ l ∈ c.literals, l.symbol ∈ ["a"] := by decide
  have unsatisfiable : ¬ ∃ v : Valuation, Cnf.eval v contradiction = true := by
    rintro ⟨v, hv⟩
    cases hvalue : v "a" <;> simp [contradiction, Cnf.eval, Clause.eval, Literal.eval, hvalue] at hv
  obtain ⟨answer, after, hsolve, -, -, -, hunsat⟩ :=
    walking_sound ⟨⟨⟨0.5, by decide⟩, 3⟩, Generator.ofSeed 1, {}⟩ contradiction ["a"] distinct
      declared
  rw [hunsat unsatisfiable] at hsolve
  exact ⟨distinct, declared, unsatisfiable, after, hsolve⟩

end CnfSearch

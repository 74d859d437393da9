import CnfSearch.Proofs.Walk.Choice
import CnfSearch.Proofs.Walk.Soundness
import CnfSearch.Random.Generator
import Mathlib.Data.Nat.Find

set_option autoImplicit false

/-!
# What the budget of a walk changes

The steps of a walk do not depend on its budget: they follow one sequence of states
(`State.after`), which the budget only cuts off. A walk ends at the first state of this sequence
that satisfies all clauses, if its budget reaches beyond it (`run_of_arrives`), and otherwise at the
state that its budget leads to, without looking at it (`run_of_unsatisfied`). So a larger budget
changes nothing about a walk that finds a model, and every smaller one either changes nothing or is
spent: `walking_budget_truncates`.
-/

namespace CnfSearch

namespace Walk

variable {G : Type} [DrawSource G]

namespace State

/-- Repair the first falsified clause, if there is one. -/
def advance (f : Formula) (noise : Noise) (s : State G) : State G :=
  match Cnf.firstFalsified? f.clauses s.model with
  | none => s
  | some c => s.repair f noise c

/-- The walk after a number of steps, whatever its budget. -/
def after (f : Formula) (noise : Noise) (s : State G) : Nat → State G
  | 0 => s
  | steps + 1 => (s.advance f noise).after f noise steps

/-- None of the first states of a walk satisfies all clauses. -/
def Unsatisfied (f : Formula) (noise : Noise) (s : State G) (steps : Nat) : Prop :=
  ∀ i < steps, Cnf.allSatisfied f.clauses (s.after f noise i).model = false

/-- The first state of a walk that satisfies all clauses. -/
structure Arrives (f : Formula) (noise : Noise) (s : State G) (steps : Nat) : Prop where
  satisfied : Cnf.allSatisfied f.clauses (s.after f noise steps).model = true
  unsatisfied : s.Unsatisfied f noise steps

section Sequence

variable {f : Formula} {noise : Noise} {s : State G} {steps fewer : Nat}

theorem Unsatisfied.of_le (h : s.Unsatisfied f noise steps) (le : fewer ≤ steps) :
    s.Unsatisfied f noise fewer :=
  fun i hi => h i (Nat.lt_of_lt_of_le hi le)

/-- The states behind the first one are those of the walk from the second one. -/
theorem Unsatisfied.tail (h : s.Unsatisfied f noise (steps + 1)) :
    (s.advance f noise).Unsatisfied f noise steps :=
  fun i hi => h (i + 1) (Nat.succ_lt_succ hi)

theorem Unsatisfied.head (h : s.Unsatisfied f noise (steps + 1)) :
    Cnf.allSatisfied f.clauses s.model = false :=
  h 0 (Nat.succ_pos steps)

/-- Among a number of states there is a first one that satisfies all clauses, or none does. -/
theorem exists_arrives_or_unsatisfied (f : Formula) (noise : Noise) (s : State G) (steps : Nat) :
    (∃ i < steps, s.Arrives f noise i) ∨ s.Unsatisfied f noise steps := by
  by_cases found : ∃ i, i < steps ∧ Cnf.allSatisfied f.clauses (s.after f noise i).model = true
  · obtain ⟨hlt, satisfied⟩ := Nat.find_spec found
    refine Or.inl ⟨Nat.find found, hlt, satisfied, fun j hj => ?_⟩
    have earlier := Nat.find_min found hj
    rw [← Bool.not_eq_true]
    exact fun hsat => earlier ⟨Nat.lt_trans hj hlt, hsat⟩
  · refine Or.inr fun i hi => ?_
    rw [← Bool.not_eq_true]
    exact fun hsat => found ⟨i, hi, hsat⟩

end Sequence

/-! ## Runs along the sequence -/

section OnCourse

variable {f : Formula} {noise : Noise} {symbols : List Symbol} {s : State G} {steps : Nat}
  (declared : ∀ c ∈ f.clauses, ∀ l ∈ c.literals, l.symbol ∈ symbols)

theorem OnCourse.advance (h : s.OnCourse symbols) : (s.advance f noise).OnCourse symbols := by
  rw [State.advance]
  split
  · exact h
  · exact h.flip _ _

theorem OnCourse.after (h : s.OnCourse symbols) (steps : Nat) :
    (s.after f noise steps).OnCourse symbols := by
  induction steps generalizing s with
  | zero => exact h
  | succ steps ih => exact ih h.advance

include declared

/-- On course, a step that does not find all clauses satisfied repairs one and is counted. -/
theorem OnCourse.exists_repair (h : s.OnCourse symbols) (noise : Noise)
    (unsatisfied : Cnf.allSatisfied f.clauses s.model = false) :
    ∃ c, Cnf.firstFalsified? f.clauses s.model = some c ∧
      s.advance f noise = s.repair f noise c := by
  obtain ⟨c, hc⟩ := h.exists_falsified declared unsatisfied
  exact ⟨c, hc, by simp only [State.advance, hc]⟩

/-- Until all clauses are satisfied, every step is counted. -/
theorem OnCourse.steps_after (h : s.OnCourse symbols) (unsatisfied : s.Unsatisfied f noise steps) :
    (s.after f noise steps).counters.steps = s.counters.steps + steps := by
  induction steps generalizing s with
  | zero => rfl
  | succ steps ih =>
    obtain ⟨c, -, hadvance⟩ := h.exists_repair declared noise unsatisfied.head
    rw [State.after, ih h.advance unsatisfied.tail, hadvance, State.steps_repair]
    omega

/-- A step of a run is a step of the sequence. -/
theorem OnCourse.run_succ (h : s.OnCourse symbols) (settings : Settings) {budget : Nat}
    (unsatisfied : Cnf.allSatisfied f.clauses s.model = false) :
    s.run f settings (budget + 1) = (s.advance f settings.noise).run f settings budget := by
  obtain ⟨c, hc, hadvance⟩ := h.exists_repair declared settings.noise unsatisfied
  rw [State.run_of_firstFalsified hc, hadvance]

/-- A run ends at the first state that satisfies all clauses, whatever is left of its budget. -/
theorem OnCourse.run_of_arrives (h : s.OnCourse symbols) (settings : Settings) {budget : Nat}
    (arrives : s.Arrives f settings.noise steps) (left : steps < budget) :
    s.run f settings budget =
      .ok (.ok (s.after f settings.noise steps).model, s.after f settings.noise steps) := by
  obtain ⟨satisfied, unsatisfied⟩ := arrives
  obtain ⟨budget, rfl⟩ : ∃ rest, budget = rest + 1 := ⟨budget - 1, by omega⟩
  induction steps generalizing s budget with
  | zero =>
    rw [State.after] at satisfied ⊢
    rw [State.run, if_pos satisfied]
  | succ steps ih =>
    obtain ⟨budget, rfl⟩ : ∃ rest, budget = rest + 1 := ⟨budget - 1, by omega⟩
    rw [h.run_succ declared settings unsatisfied.head, State.after]
    exact ih h.advance satisfied unsatisfied.tail budget (by omega)

/-- The states of such a run are those of the sequence up to its end. -/
theorem OnCourse.states_of_arrives (h : s.OnCourse symbols) (settings : Settings) {budget : Nat}
    (arrives : s.Arrives f settings.noise steps) (left : steps < budget) :
    s.states f settings budget =
      (List.range (steps + 1)).map (s.after f settings.noise) := by
  obtain ⟨satisfied, unsatisfied⟩ := arrives
  obtain ⟨budget, rfl⟩ : ∃ rest, budget = rest + 1 := ⟨budget - 1, by omega⟩
  induction steps generalizing s budget with
  | zero =>
    rw [State.after] at satisfied
    rw [State.states, if_pos satisfied]
    rfl
  | succ steps ih =>
    obtain ⟨budget, rfl⟩ : ∃ rest, budget = rest + 1 := ⟨budget - 1, by omega⟩
    obtain ⟨c, hc, hadvance⟩ := h.exists_repair declared settings.noise unsatisfied.head
    have later := ih h.advance satisfied unsatisfied.tail budget (by omega)
    rw [State.states_of_firstFalsified hc, ← hadvance, later,
      List.range_succ_eq_map (n := steps + 1), List.map_cons, List.map_map]
    rfl

/-- A run that meets no such state spends its budget. -/
theorem OnCourse.run_of_unsatisfied (h : s.OnCourse symbols) (settings : Settings) {budget : Nat}
    (unsatisfied : s.Unsatisfied f settings.noise budget) :
    s.run f settings budget =
      .ok (.error (.exhausted settings.maxSteps), s.after f settings.noise budget) := by
  induction budget generalizing s with
  | zero => rfl
  | succ budget ih =>
    rw [h.run_succ declared settings unsatisfied.head, State.after]
    exact ih h.advance unsatisfied.tail

end OnCourse

end State

end Walk

/-! ## Solving with different budgets -/

/-- The same walk with another budget. -/
def Walker.withBudget {G : Type} (walker : Walker G) (budget : Nat) : Walker G :=
  { walker with settings := { walker.settings with maxSteps := budget } }

/-- What a walk leaves in a given state. -/
def Walker.leftIn {G : Type} (walker : Walker G) (s : Walk.State G) : Walker G :=
  ⟨walker.settings, s.source, s.counters⟩

namespace Walker

variable {G : Type} [DrawSource G] {walker : Walker G} {cnf : Cnf} {symbols : List Symbol}
  {s : Walk.State G} {steps budget : Nat}
  (declared : ∀ c ∈ cnf, ∀ l ∈ c.literals, l.symbol ∈ symbols)
  (started : Walk.start symbols walker.source = .ok s) (onCourse : s.OnCourse symbols)

include declared started onCourse

theorem solve_of_arrives (arrives : s.Arrives (.ofCnf cnf) walker.settings.noise steps)
    (left : steps < budget) :
    (Solver.walking (walker.withBudget budget)).solve cnf symbols =
      .ok (.ok (s.after (.ofCnf cnf) walker.settings.noise steps).model, .walking
        ((walker.withBudget budget).leftIn (s.after (.ofCnf cnf) walker.settings.noise steps))) := by
  apply Solver.solve_walking declared
  rw [Walk.search, show Walk.start symbols (walker.withBudget budget).source = .ok s from started]
  exact onCourse.run_of_arrives (f := .ofCnf cnf) declared (walker.withBudget budget).settings
    arrives left

theorem solve_of_unsatisfied
    (unsatisfied : s.Unsatisfied (.ofCnf cnf) walker.settings.noise budget) :
    (Solver.walking (walker.withBudget budget)).solve cnf symbols =
      .ok (.error (.exhausted budget), .walking
        ((walker.withBudget budget).leftIn
          (s.after (.ofCnf cnf) walker.settings.noise budget))) := by
  apply Solver.solve_walking declared
  rw [Walk.search, show Walk.start symbols (walker.withBudget budget).source = .ok s from started]
  exact onCourse.run_of_unsatisfied (f := .ofCnf cnf) declared (walker.withBudget budget).settings
    unsatisfied

/-- A walk succeeds exactly if its budget reaches beyond a first state that satisfies all clauses,
and then it ends in that state. -/
theorem solve_eq_ok_iff {model : Assignment} {left : Solver G} :
    (Solver.walking (walker.withBudget budget)).solve cnf symbols = .ok (.ok model, left) ↔
      ∃ i < budget, s.Arrives (.ofCnf cnf) walker.settings.noise i ∧
        model = (s.after (.ofCnf cnf) walker.settings.noise i).model ∧
        left = .walking ((walker.withBudget budget).leftIn
          (s.after (.ofCnf cnf) walker.settings.noise i)) := by
  constructor
  · intro found
    rcases s.exists_arrives_or_unsatisfied (.ofCnf cnf) walker.settings.noise budget with
      ⟨i, hi, arrives⟩ | unsatisfied
    · rw [solve_of_arrives declared started onCourse arrives hi] at found
      cases found
      exact ⟨i, hi, arrives, rfl, rfl⟩
    · rw [solve_of_unsatisfied declared started onCourse unsatisfied] at found
      cases found
  · rintro ⟨i, hi, arrives, rfl, rfl⟩
    exact solve_of_arrives declared started onCourse arrives hi

/-- A walk spends its budget exactly if no state before the end of it satisfies all clauses. -/
theorem solve_eq_exhausted_iff {left : Solver G} :
    (Solver.walking (walker.withBudget budget)).solve cnf symbols =
        .ok (.error (.exhausted budget), left) ↔
      s.Unsatisfied (.ofCnf cnf) walker.settings.noise budget ∧
        left = .walking ((walker.withBudget budget).leftIn
          (s.after (.ofCnf cnf) walker.settings.noise budget)) := by
  constructor
  · intro spent
    rcases s.exists_arrives_or_unsatisfied (.ofCnf cnf) walker.settings.noise budget with
      ⟨i, hi, arrives⟩ | unsatisfied
    · rw [solve_of_arrives declared started onCourse arrives hi] at spent
      cases spent
    · rw [solve_of_unsatisfied declared started onCourse unsatisfied] at spent
      cases spent
      exact ⟨unsatisfied, rfl⟩
  · rintro ⟨unsatisfied, rfl⟩
    exact solve_of_unsatisfied declared started onCourse unsatisfied

end Walker

/-- The budget only cuts a walk off. A walk that finds a model does the same with every budget above
the steps that it took, down to the order of the model, its counters and its draws, and spends every
budget up to them; a walk that spends its budget spends every smaller one. It succeeds exactly if
one of the assignments before its last step satisfies all clauses, and returns the first of them. -/
theorem walking_budget_truncates {G : Type} [DrawSource G] (walker : Walker G) (cnf : Cnf)
    (symbols : List Symbol) (distinct : symbols.Nodup)
    (declared : ∀ c ∈ cnf, ∀ l ∈ c.literals, l.symbol ∈ symbols) :
    (∀ budget model left,
        (Solver.walking (walker.withBudget budget)).solve cnf symbols =
            .ok (.ok model, .walking left) →
          (∀ more > left.counters.steps,
            (Solver.walking (walker.withBudget more)).solve cnf symbols =
              .ok (.ok model, .walking (left.withBudget more))) ∧
          ∀ fewer ≤ left.counters.steps, ∃ spent,
            (Solver.walking (walker.withBudget fewer)).solve cnf symbols =
                .ok (.error (.exhausted fewer), .walking spent) ∧ spent.counters.steps = fewer) ∧
      (∀ budget left,
        (Solver.walking (walker.withBudget budget)).solve cnf symbols =
            .ok (.error (.exhausted budget), left) →
          ∀ fewer ≤ budget, ∃ spent,
            (Solver.walking (walker.withBudget fewer)).solve cnf symbols =
                .ok (.error (.exhausted fewer), .walking spent) ∧ spent.counters.steps = fewer) ∧
      ∃ s : Walk.State G, Walk.start symbols walker.source = .ok s ∧
        ∀ budget,
          ((∃ model left, (Solver.walking (walker.withBudget budget)).solve cnf symbols =
              .ok (.ok model, .walking left)) ↔
            ∃ i < budget, Cnf.allSatisfied cnf
              (s.after (.ofCnf cnf) walker.settings.noise i).model = true) ∧
          ∀ model left, (Solver.walking (walker.withBudget budget)).solve cnf symbols =
              .ok (.ok model, left) →
            ∃ i < budget, model = (s.after (.ofCnf cnf) walker.settings.noise i).model ∧
              Cnf.allSatisfied cnf model = true ∧
              ∀ j < i, Cnf.allSatisfied cnf
                (s.after (.ofCnf cnf) walker.settings.noise j).model = false := by
  obtain ⟨s, started, onCourse, fresh⟩ := Walk.start_onCourse distinct walker.source
  have counted : ∀ {i : Nat}, s.Unsatisfied (.ofCnf cnf) walker.settings.noise i →
      (s.after (.ofCnf cnf) walker.settings.noise i).counters.steps = i := by
    intro i unsatisfied
    rw [onCourse.steps_after (f := .ofCnf cnf) declared unsatisfied, fresh]
    exact Nat.zero_add i
  refine ⟨?_, ?_, s, started, fun budget => ⟨?_, ?_⟩⟩
  · intro budget model left found
    obtain ⟨i, -, arrives, rfl, hleft⟩ :=
      (Walker.solve_eq_ok_iff declared started onCourse).mp found
    cases hleft
    have hsteps := counted arrives.unsatisfied
    refine ⟨fun more hmore => ?_, fun fewer hfewer => ?_⟩
    · have reaches : i < more := by
        rw [← hsteps]
        exact hmore
      exact Walker.solve_of_arrives declared started onCourse arrives reaches
    · have unsatisfied := arrives.unsatisfied.of_le (Nat.le_trans hfewer (Nat.le_of_eq hsteps))
      exact ⟨_, Walker.solve_of_unsatisfied declared started onCourse unsatisfied,
        counted unsatisfied⟩
  · intro budget left spent fewer hfewer
    obtain ⟨unsatisfied, -⟩ :=
      (Walker.solve_eq_exhausted_iff declared started onCourse).mp spent
    have smaller := unsatisfied.of_le hfewer
    exact ⟨_, Walker.solve_of_unsatisfied declared started onCourse smaller, counted smaller⟩
  · constructor
    · rintro ⟨model, left, found⟩
      obtain ⟨i, hi, arrives, -, -⟩ :=
        (Walker.solve_eq_ok_iff declared started onCourse).mp found
      exact ⟨i, hi, arrives.satisfied⟩
    · rintro ⟨i, hi, satisfied⟩
      rcases s.exists_arrives_or_unsatisfied (.ofCnf cnf) walker.settings.noise budget with
        ⟨j, hj, arrives⟩ | unsatisfied
      · exact ⟨_, _, Walker.solve_of_arrives declared started onCourse arrives hj⟩
      · refine absurd satisfied ?_
        rw [Bool.not_eq_true]
        exact unsatisfied i hi
  · intro model left found
    obtain ⟨i, hi, arrives, rfl, -⟩ :=
      (Walker.solve_eq_ok_iff declared started onCourse).mp found
    exact ⟨i, hi, rfl, arrives.satisfied, arrives.unsatisfied⟩

/-- A literal that has to be true. -/
def soleLiteral : Cnf := [⟨[⟨"a", true⟩], List.cons_ne_nil _ _⟩]

/-- A walk to this literal makes one flip at most. -/
theorem Walk.exists_satisfied_soleLiteral {G : Type} [DrawSource G] {s : State G} (noise : Noise)
    (onCourse : s.OnCourse ["a"]) : ∃ i < 2,
      Cnf.allSatisfied soleLiteral (s.after (.ofCnf soleLiteral) noise i).model = true := by
  cases satisfied : Cnf.allSatisfied soleLiteral s.model with
  | true => exact ⟨0, by decide, satisfied⟩
  | false =>
    obtain ⟨c, hc, hadvance⟩ := onCourse.exists_repair (f := .ofCnf soleLiteral) (by decide) noise
      satisfied
    have hclause : c.literals = [⟨"a", true⟩] := by
      have hmem : c ∈ soleLiteral := List.mem_of_find?_eq_some hc
      rw [List.mem_singleton.mp hmem]
    have hchosen := choose_literal_mem (.ofCnf soleLiteral) noise c s.source
    rw [hclause, List.mem_singleton] at hchosen
    -- The clause is falsified, so that its symbol is false before the flip.
    have hfalse : (⟨"a", true⟩ : Literal).opposite ∈ s.model.toList :=
      Clause.isFalsified_iff.mp (List.find?_some hc) _ (by simp [hclause])
    refine ⟨1, by decide, Cnf.allSatisfied_iff.mpr fun d hd => ?_⟩
    rw [List.mem_singleton.mp hd]
    refine ⟨_, List.mem_singleton_self _, ?_⟩
    rw [State.after, State.after, hadvance]
    change _ ∈ (s.model.flip (choose (.ofCnf soleLiteral) noise c s.source).1.literal.symbol).toList
    rw [hchosen, Assignment.toList_flip]
    exact List.mem_map.mpr ⟨_, hfalse, by simp⟩

/-- A walk that may flip a symbol at random. -/
def noisyWalker : Walker Generator := ⟨⟨⟨0.5, by decide⟩, 2⟩, .ofSeed 1, {}⟩

/-- Two steps find the literal, a thousand find it in the same way, and none does not. -/
theorem walking_budget_truncates_soleLiteral :
    ["a"].Nodup ∧ (∀ c ∈ soleLiteral, ∀ l ∈ c.literals, l.symbol ∈ ["a"]) ∧
      ∃ model left,
        (Solver.walking (noisyWalker.withBudget 2)).solve soleLiteral ["a"] =
            .ok (.ok model, .walking left) ∧
          (Solver.walking (noisyWalker.withBudget 1000)).solve soleLiteral ["a"] =
            .ok (.ok model, .walking (left.withBudget 1000)) ∧
          ∃ spent, (Solver.walking (noisyWalker.withBudget 0)).solve soleLiteral ["a"] =
            .ok (.error (.exhausted 0), .walking spent) := by
  have distinct : ["a"].Nodup := by decide
  have declared : ∀ c ∈ soleLiteral, ∀ l ∈ c.literals, l.symbol ∈ ["a"] := by decide
  obtain ⟨truncates, -, s, started, finds⟩ :=
    walking_budget_truncates noisyWalker soleLiteral ["a"] distinct declared
  have onCourse : s.OnCourse ["a"] := by
    obtain ⟨t, ht, onCourse, -⟩ := Walk.start_onCourse distinct noisyWalker.source
    obtain rfl : s = t := Except.ok.inj (started.symm.trans ht)
    exact onCourse
  obtain ⟨model, left, found⟩ :=
    (finds 2).1.mpr (Walk.exists_satisfied_soleLiteral noisyWalker.settings.noise onCourse)
  obtain ⟨more, fewer⟩ := truncates 2 model left found
  obtain ⟨spent, hspent, -⟩ := fewer 0 (Nat.zero_le _)
  have early : left.counters.steps < 1000 := by
    by_contra late
    -- After so many steps a budget of two would be spent.
    obtain ⟨_, hspent, -⟩ := fewer 2 (by omega)
    rw [found] at hspent
    cases hspent
  exact ⟨distinct, declared, model, left, found, more 1000 early, spent, hspent⟩

end CnfSearch

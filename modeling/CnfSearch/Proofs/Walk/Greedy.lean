import CnfSearch.Proofs.Model.Values
import CnfSearch.Proofs.Walk.Budget
import CnfSearch.Proofs.Walk.Draws
import Mathlib.Data.Finset.Powerset

set_option autoImplicit false

/-!
# Walks without random moves

Where a greedy move leads depends only on the values of the assignment (`greedyMove_congr`), because
the occurrences are counted once for a whole walk. So a walk of greedy moves that comes back to
values which it had before goes on as it did then, and never ends
(`State.Arrives.value?_ne`). One that finds a model has therefore met different values at every
step, and there are only `2 ^ n` ways to give values to `n` symbols:
`greedy_walk_never_repeats`.
-/

namespace CnfSearch

namespace Walk

/-! ## Greedy moves -/

/-- Flip the most frequent literal of the first falsified clause, if there is one. -/
def greedyMove (f : Formula) (a : Assignment) : Assignment :=
  match Cnf.firstFalsified? f.clauses a with
  | none => a
  | some c => a.flip (mostFrequent f.occurrences c).symbol

/-- A greedy move takes equal values to equal values. -/
theorem greedyMove_congr (f : Formula) {a b : Assignment} (same : a.value? = b.value?) :
    (greedyMove f a).value? = (greedyMove f b).value? := by
  rw [greedyMove, greedyMove, Cnf.firstFalsified?_congr same]
  split
  · exact same
  · exact Assignment.flip_congr same _

theorem iterate_greedyMove_congr (f : Formula) {a b : Assignment} (same : a.value? = b.value?)
    (moves : Nat) : ((greedyMove f)^[moves] a).value? = ((greedyMove f)^[moves] b).value? := by
  induction moves generalizing a b with
  | zero => exact same
  | succ moves ih => exact ih (greedyMove_congr f same)

namespace State

variable {G : Type} [DrawSource G] {f : Formula} {noise : Noise} {s : State G} {steps : Nat}

/-- A step makes the greedy move or is counted as random. -/
theorem advance_cases (f : Formula) (noise : Noise) (s : State G) :
    ((s.advance f noise).model = greedyMove f s.model ∧
        (s.advance f noise).counters.randomFlips = s.counters.randomFlips) ∨
      (s.advance f noise).counters.randomFlips = s.counters.randomFlips + 1 := by
  rw [advance, greedyMove]
  cases Cnf.firstFalsified? f.clauses s.model with
  | none => exact .inl ⟨rfl, rfl⟩
  | some c =>
    simp only [repair, choose]
    split
    · exact .inr rfl
    · exact .inl ⟨rfl, rfl⟩

theorem randomFlips_le_after (f : Formula) (noise : Noise) (s : State G) (steps : Nat) :
    s.counters.randomFlips ≤ (s.after f noise steps).counters.randomFlips := by
  induction steps generalizing s with
  | zero => exact Nat.le_refl _
  | succ steps ih =>
    have first : s.counters.randomFlips ≤ (s.advance f noise).counters.randomFlips := by
      rcases s.advance_cases f noise with ⟨-, h⟩ | h <;> omega
    exact Nat.le_trans first (ih (s.advance f noise))

/-- With a noise that no draw falls below, no flip is random. -/
theorem randomFlips_after_of_unreached
    (unreached : ∀ source : G, ¬ (DrawSource.fraction source).1 < noise.value) (s : State G)
    (steps : Nat) : (s.after f noise steps).counters.randomFlips = s.counters.randomFlips := by
  induction steps generalizing s with
  | zero => rfl
  | succ steps ih =>
    rw [after, ih, advance]
    cases Cnf.firstFalsified? f.clauses s.model with
    | none => rfl
    | some c =>
      simp only [repair, choose, if_neg (unreached _)]
      rfl

/-- A walk that counts no random flip makes the greedy move at every step. -/
theorem model_after_of_greedy
    (greedy : (s.after f noise steps).counters.randomFlips = s.counters.randomFlips) :
    ∀ i ≤ steps, (s.after f noise i).model = (greedyMove f)^[i] s.model := by
  induction steps generalizing s with
  | zero =>
    intro i hi
    obtain rfl := Nat.le_zero.mp hi
    rfl
  | succ steps ih =>
    intro i hi
    cases i with
    | zero => rfl
    | succ i =>
      have later := randomFlips_le_after f noise (s.advance f noise) steps
      rw [State.after] at greedy
      rcases s.advance_cases f noise with ⟨move, same⟩ | random
      · rw [State.after, ih (greedy.trans same.symm) i (Nat.le_of_succ_le_succ hi), move]
        rfl
      · omega

/-- A walk of greedy moves that ends at its first model meets no values twice. -/
theorem Arrives.value?_ne (arrives : s.Arrives f noise steps)
    (greedy : (s.after f noise steps).counters.randomFlips = s.counters.randomFlips) {i j : Nat}
    (before : i < j) (within : j ≤ steps) :
    (s.after f noise i).model.value? ≠ (s.after f noise j).model.value? := by
  have moves := model_after_of_greedy greedy
  intro same
  rw [moves i (by omega), moves j within] at same
  -- From the first of the two states on, the model would be as far away as from the second one.
  have again := iterate_greedyMove_congr f same (steps - j)
  rw [← Function.iterate_add_apply, ← Function.iterate_add_apply, Nat.sub_add_cancel within,
    ← moves steps (Nat.le_refl _), ← moves _ (by omega)] at again
  have early := arrives.unsatisfied (steps - j + i) (by omega)
  rw [Cnf.allSatisfied_congr again, arrives.satisfied] at early
  cases early

end State

end Walk

/-! ## The number of valuations -/

/-- The symbols of a list that an assignment makes true. -/
def Assignment.trueAmong (a : Assignment) (symbols : List Symbol) : Finset Symbol :=
  symbols.toFinset.filter fun s => a.value? s = some true

/-- Assignments of the same symbols that make the same ones true have the same values. -/
theorem Assignment.value?_eq_of_trueAmong {a b : Assignment} {symbols : List Symbol}
    (ha : a.symbols = symbols) (hb : b.symbols = symbols)
    (same : a.trueAmong symbols = b.trueAmong symbols) : a.value? = b.value? := by
  funext s
  by_cases hs : s ∈ symbols
  · have member := Finset.ext_iff.mp same s
    rw [trueAmong, trueAmong, Finset.mem_filter, Finset.mem_filter, List.mem_toFinset,
      value?_eq_some_valuation (ha ▸ hs), value?_eq_some_valuation (hb ▸ hs)] at member
    rw [value?_eq_some_valuation (ha ▸ hs), value?_eq_some_valuation (hb ▸ hs),
      Option.some.injEq, Bool.eq_iff_iff]
    simpa [hs] using member
  · rw [value?_eq_none (ha ▸ hs), value?_eq_none (hb ▸ hs)]

/-- A walk that meets no values twice ends before it has met all of them. -/
theorem Walk.State.Arrives.lt_two_pow {G : Type} [DrawSource G] {f : Formula} {noise : Noise}
    {s : State G} {steps : Nat} {symbols : List Symbol} (arrives : s.Arrives f noise steps)
    (onCourse : s.OnCourse symbols) (distinct : symbols.Nodup)
    (greedy : (s.after f noise steps).counters.randomFlips = s.counters.randomFlips) :
    steps < 2 ^ symbols.length := by
  have among : ∀ i ∈ Finset.range (steps + 1),
      (s.after f noise i).model.trueAmong symbols ∈ symbols.toFinset.powerset := by
    intro i _
    exact Finset.mem_powerset.mpr (Finset.filter_subset _ _)
  have apart : Set.InjOn (fun i => (s.after f noise i).model.trueAmong symbols)
      (Finset.range (steps + 1)) := by
    intro i hi j hj same
    rw [Finset.mem_coe, Finset.mem_range] at hi hj
    have values := Assignment.value?_eq_of_trueAmong (onCourse.after i).assigns
      (onCourse.after j).assigns same
    rcases Nat.lt_trichotomy i j with before | rfl | after
    · exact absurd values (arrives.value?_ne greedy before (by omega))
    · rfl
    · exact absurd values.symm (arrives.value?_ne greedy after (by omega))
  have count := Finset.card_le_card_of_injOn _ among apart
  rw [Finset.card_range, Finset.card_powerset, List.toFinset_card_of_nodup distinct] at count
  exact count

/-- A walk that finds a model without a random move meets different values at every step, and takes
fewer steps than there are ways to give values to the symbols. -/
theorem greedy_walk_never_repeats {G : Type} [DrawSource G] (walker : Walker G) (cnf : Cnf)
    (symbols : List Symbol) (distinct : symbols.Nodup)
    (declared : ∀ c ∈ cnf, ∀ l ∈ c.literals, l.symbol ∈ symbols) {model : Assignment}
    {left : Walker G}
    (found : (Solver.walking walker).solve cnf symbols = .ok (.ok model, .walking left))
    (greedy : left.counters.randomFlips = 0) :
    left.counters.steps < 2 ^ symbols.length ∧
      ∃ s visited, Walk.start symbols walker.source = .ok s ∧
        (s.states (.ofCnf cnf) walker.settings walker.settings.maxSteps).map Walk.State.model =
          visited ∧
        visited.length = left.counters.steps + 1 ∧ visited.getLast? = some model ∧
        visited.Pairwise fun a b => ∃ x ∈ symbols, a.value? x ≠ b.value? x := by
  obtain ⟨s, started, onCourse, fresh⟩ := Walk.start_onCourse distinct walker.source
  change (Solver.walking (walker.withBudget walker.settings.maxSteps)).solve cnf symbols =
    .ok (.ok model, .walking left) at found
  obtain ⟨steps, within, arrives, rfl, hleft⟩ :=
    (Walker.solve_eq_ok_iff declared started onCourse).mp found
  cases hleft
  have unrandom : (s.after (.ofCnf cnf) walker.settings.noise steps).counters.randomFlips =
      s.counters.randomFlips := by
    rw [fresh]
    exact greedy
  have counted : ((walker.withBudget walker.settings.maxSteps).leftIn
      (s.after (.ofCnf cnf) walker.settings.noise steps)).counters.steps = steps := by
    rw [Walker.leftIn, onCourse.steps_after (f := .ofCnf cnf) declared arrives.unsatisfied, fresh]
    exact Nat.zero_add steps
  have visits :=
    onCourse.states_of_arrives (f := .ofCnf cnf) declared walker.settings arrives within
  rw [counted]
  refine ⟨arrives.lt_two_pow onCourse distinct unrandom, s, _, started, rfl, ?_, ?_, ?_⟩
  · rw [visits, List.length_map, List.length_map, List.length_range]
  · rw [visits, List.range_succ, List.map_append, List.map_append, List.getLast?_append]
    rfl
  · rw [visits, List.pairwise_map, List.pairwise_map]
    refine List.pairwise_lt_range.imp_of_mem fun {i j} _ hj before => ?_
    rw [List.mem_range] at hj
    obtain ⟨x, differ⟩ := Function.ne_iff.mp (arrives.value?_ne unrandom before (by omega))
    refine ⟨x, ?_, differ⟩
    -- Outside the symbols neither of the two assignments has a value.
    by_contra outside
    rw [Assignment.value?_eq_none ((onCourse.after i).assigns ▸ outside),
      Assignment.value?_eq_none ((onCourse.after j).assigns ▸ outside)] at differ
    exact differ rfl

/-- A walk without noise. -/
def steadyWalker : Walker Draws := ⟨⟨⟨0, by decide⟩, 5⟩, ⟨[false], []⟩, {}⟩

/-- The walk to a literal that is false at first takes the one step that two valuations allow. -/
theorem greedy_walk_never_repeats_soleLiteral :
    ["a"].Nodup ∧ (∀ c ∈ soleLiteral, ∀ l ∈ c.literals, l.symbol ∈ ["a"]) ∧
      ∃ model left, (Solver.walking steadyWalker).solve soleLiteral ["a"] =
          .ok (.ok model, .walking left) ∧
        left.counters.randomFlips = 0 ∧ left.counters.steps = 1 ∧
        left.counters.steps < 2 ^ ["a"].length := by
  have distinct : ["a"].Nodup := by decide
  have declared : ∀ c ∈ soleLiteral, ∀ l ∈ c.literals, l.symbol ∈ ["a"] := by decide
  obtain ⟨s, started, drawn, onCourse, fresh⟩ := Walk.exists_start distinct steadyWalker.source
  have first : Cnf.allSatisfied soleLiteral s.model = false := by
    rw [← Bool.not_eq_true, Cnf.allSatisfied_iff, drawn]
    decide
  have arrives : s.Arrives (.ofCnf soleLiteral) steadyWalker.settings.noise 1 := by
    obtain ⟨i, hi, satisfied⟩ :=
      Walk.exists_satisfied_soleLiteral steadyWalker.settings.noise onCourse
    rcases Nat.le_one_iff_eq_zero_or_eq_one.mp (Nat.le_of_lt_succ hi) with rfl | rfl
    · rw [Walk.State.after, first] at satisfied
      cases satisfied
    · refine ⟨satisfied, fun j hj => ?_⟩
      rw [Nat.lt_one_iff.mp hj]
      exact first
  have found : (Solver.walking (steadyWalker.withBudget 5)).solve soleLiteral ["a"] = _ :=
    Walker.solve_of_arrives declared started onCourse arrives (by decide)
  have unreached : ∀ draws : Draws,
      ¬ (DrawSource.fraction draws).1 < steadyWalker.settings.noise.value := by
    intro draws
    change ¬ (0 : Float) < 0
    decide
  have greedy : (s.after (.ofCnf soleLiteral) steadyWalker.settings.noise 1).counters.randomFlips =
      0 := by
    rw [Walk.State.randomFlips_after_of_unreached unreached, fresh]
  have counted : (s.after (.ofCnf soleLiteral) steadyWalker.settings.noise 1).counters.steps =
      1 := by
    rw [onCourse.steps_after (f := .ofCnf soleLiteral) declared arrives.unsatisfied, fresh]
  exact ⟨distinct, declared, _, _, found, greedy, counted,
    (greedy_walk_never_repeats steadyWalker soleLiteral ["a"] distinct declared found greedy).1⟩

end CnfSearch

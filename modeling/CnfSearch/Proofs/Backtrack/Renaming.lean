import CnfSearch.Proofs.Backtrack.Runs
import CnfSearch.Proofs.Model.Renaming

set_option autoImplicit false

/-!
# Backtracking under a renaming

A search over renamed clauses and symbols makes the renamed moves of the search over the given ones:
the tests for a move look at symbols only to compare them (`Branch.move_rename`). Step by step the
two searches keep renamed branches and the same counters (`Search.Renames.step`), and so they end
alike: `search_rename`. Nothing is assumed of the clauses and symbols, so that a repeated symbol
faults in both.
-/

namespace CnfSearch.Backtrack

variable {ρ : Symbol → Symbol}

/-- The renamed clauses with their own pure literals. -/
def Formula.rename (ρ : Symbol → Symbol) (f : Formula) : Formula := .ofCnf (Cnf.rename ρ f.clauses)

/-- The same move, with its symbols renamed. -/
def Move.rename (ρ : Symbol → Symbol) : Move → Move
  | .succeed => .succeed
  | .conflict => .conflict
  | .pure l => .pure (l.rename ρ)
  | .unit l => .unit (l.rename ρ)
  | .exhausted => .exhausted
  | .decide s rest => .decide (ρ s) (rest.map ρ)

/-- The renamed open symbols and the renamed model. -/
structure Branch.Renames (ρ : Symbol → Symbol) (b d : Branch) : Prop where
  remaining : d.remaining = b.remaining.map ρ
  model : b.model.Renames ρ d.model

/-- Renamed branches and the same work. -/
structure Search.Renames (ρ : Symbol → Symbol) (s t : Search) : Prop where
  current : s.current.Renames ρ t.current
  pending : List.Forall₂ (Branch.Renames ρ) s.pending t.pending
  counters : t.counters = s.counters

/-- Two steps lead to renamed searches or finish with renamed answers. -/
inductive Step.Renames (ρ : Symbol → Symbol) : Step → Step → Prop where
  | next {s t : Search} (renames : s.Renames ρ t) : Renames ρ (.next s) (.next t)
  | finish {x y : Answer} {counters : Counters} (renames : RenamedAnswer ρ x y) :
      Renames ρ (.finish x counters) (.finish y counters)

/-- An injective map keeps repetitions where they are. -/
theorem eraseDups_map {α β : Type} [DecidableEq α] [DecidableEq β] {g : α → β}
    (injective : Function.Injective g) (xs : List α) :
    (xs.map g).eraseDups = xs.eraseDups.map g := by
  match xs with
  | [] => rfl
  | x :: xs =>
    have different : ((fun y => !y == g x) ∘ g) = fun y => !y == x := by
      funext y
      rw [Function.comp_apply, Bool.eq_iff_iff]
      simp [injective.eq_iff]
    -- What equals the first element is removed from the rest before and after the map.
    rw [List.map_cons, List.eraseDups_cons, List.eraseDups_cons, List.map_cons, List.filter_map,
      different, eraseDups_map injective]
termination_by xs.length
decreasing_by exact Nat.lt_succ_of_le (List.length_filter_le _ xs)

section Injective

variable (injective : Function.Injective ρ)

include injective

/-! ## Moves -/

theorem pureLiterals_rename (cnf : Cnf) :
    pureLiterals (Cnf.rename ρ cnf) = (pureLiterals cnf).map (Literal.rename ρ) := by
  rw [pureLiterals, pureLiterals, Cnf.literals_rename, List.filter_map,
    eraseDups_map (Literal.rename_injective injective)]
  congr 3
  funext l
  rw [Function.comp_apply, Literal.opposite_rename, Occurrences.count_rename injective]

theorem firstPure?_rename (pures : List Literal) (remaining : List Symbol) :
    firstPure? (pures.map (Literal.rename ρ)) (remaining.map ρ) =
      (firstPure? pures remaining).map (Literal.rename ρ) := by
  rw [firstPure?, firstPure?, List.find?_map]
  congr 2
  funext l
  rw [Function.comp_apply, Bool.eq_iff_iff, List.contains_iff_mem, List.contains_iff_mem]
  exact List.mem_map_of_injective injective

theorem openUnit?_rename {a b : Assignment} (h : a.Renames ρ b) (c : Clause) :
    openUnit? b (c.rename ρ) = (openUnit? a c).map (Literal.rename ρ) := by
  rw [openUnit?, openUnit?, Clause.sole?_rename, Option.filter_map]
  congr 2
  funext l
  rw [Function.comp_apply, h.holds injective]

theorem firstUnit?_rename {a b : Assignment} (h : a.Renames ρ b) (cnf : Cnf) :
    firstUnit? (Cnf.rename ρ cnf) b = (firstUnit? cnf a).map (Literal.rename ρ) := by
  rw [firstUnit?, firstUnit?, Cnf.rename, List.findSome?_map, List.map_findSome?]
  congr 1
  funext c
  exact openUnit?_rename injective h c

variable {b d : Branch} (h : b.Renames ρ d)

include h

/-- The due move is the same one, renamed. -/
theorem Branch.move_rename (f : Formula) : d.move (f.rename ρ) = (b.move f).rename ρ := by
  have hpures : (f.rename ρ).pures = f.pures.map (Literal.rename ρ) := by
    rw [f.pures_eq]
    exact pureLiterals_rename injective f.clauses
  have hclauses : (f.rename ρ).clauses = Cnf.rename ρ f.clauses := rfl
  rw [move, move, hclauses, hpures, h.remaining, Cnf.allSatisfied_rename h.model injective,
    Cnf.anyFalsified_rename h.model injective, firstPure?_rename injective,
    firstUnit?_rename injective h.model]
  -- Both moves are now chosen by the same tests.
  cases Cnf.allSatisfied f.clauses b.model with
  | true => rfl
  | false =>
    cases Cnf.anyFalsified f.clauses b.model with
    | true => rfl
    | false =>
      cases firstPure? f.pures b.remaining with
      | some l => rfl
      | none =>
        cases firstUnit? f.clauses b.model with
        | some l => rfl
        | none =>
          cases b.remaining with
          | nil => rfl
          | cons s rest => rfl

theorem Branch.Renames.follow (l : Literal) :
    Parallel ρ (Branch.Renames ρ) (b.follow l) (d.follow (l.rename ρ)) := by
  rw [Branch.follow, Branch.follow]
  rcases (h.model.assign injective l).ok_or_error with
    ⟨x, y, hx, hy, related⟩ | ⟨fault, hx, hy⟩
  · rw [hx, hy]
    refine .ok ⟨?_, related⟩
    rw [h.remaining, List.map_erase injective]
    rfl
  · rw [hx, hy]
    exact .error fault

theorem Branch.Renames.decide (s : Symbol) (rest : List Symbol) (value : Bool) :
    Parallel ρ (Branch.Renames ρ) (b.decide s rest value) (d.decide (ρ s) (rest.map ρ) value) := by
  have assigned : Parallel ρ (Assignment.Renames ρ) (b.model.assign ⟨s, value⟩)
      (d.model.assign ⟨ρ s, value⟩) := h.model.assign injective ⟨s, value⟩
  rw [Branch.decide, Branch.decide]
  rcases assigned.ok_or_error with ⟨x, y, hx, hy, related⟩ | ⟨fault, hx, hy⟩
  · rw [hx, hy]
    exact .ok ⟨rfl, related⟩
  · rw [hx, hy]
    exact .error fault

theorem Branch.Renames.complete :
    Parallel ρ (Assignment.Renames ρ) b.complete d.complete := by
  have completed := h.model.assignAll injective (b.remaining.map fun s => ⟨s, true⟩)
  rw [List.map_map] at completed
  rw [Branch.complete, Branch.complete, h.remaining, List.map_map]
  exact completed

end Injective

/-! ## Steps and runs -/

/-- Branches that are given up make way for renamed ones. -/
theorem Search.renames_giveUp {pending others : List Branch} (counters : Counters)
    (h : List.Forall₂ (Branch.Renames ρ) pending others) :
    Step.Renames ρ (giveUp pending counters) (giveUp others counters) := by
  cases h with
  | nil => exact .finish (.failure .unsatisfiable)
  | cons first rest => exact .next ⟨first, rest, rfl⟩

section Runs

variable (injective : Function.Injective ρ) {f : Formula} {s t : Search}

include injective

theorem Search.Renames.step (h : s.Renames ρ t) :
    Parallel ρ (Step.Renames ρ) (s.step f) (t.step (f.rename ρ)) := by
  obtain ⟨current, pending, counters⟩ := h
  have hmove := Branch.move_rename injective current f
  rw [Search.step, Search.step, hmove, counters]
  cases s.current.move f with
  | succeed =>
    simp only [Move.rename]
    rcases (current.complete injective).ok_or_error with
      ⟨x, y, hx, hy, related⟩ | ⟨fault, hx, hy⟩
    · rw [hx, hy]
      exact .ok (.finish (.model related))
    · rw [hx, hy]
      exact .error fault
  | conflict => exact .ok (renames_giveUp _ pending)
  | pure l =>
    simp only [Move.rename]
    rcases (current.follow injective l).ok_or_error with
      ⟨x, y, hx, hy, related⟩ | ⟨fault, hx, hy⟩
    · rw [hx, hy]
      exact .ok (.next ⟨related, pending, rfl⟩)
    · rw [hx, hy]
      exact .error fault
  | unit l =>
    simp only [Move.rename]
    rcases (current.follow injective l).ok_or_error with
      ⟨x, y, hx, hy, related⟩ | ⟨fault, hx, hy⟩
    · rw [hx, hy]
      exact .ok (.next ⟨related, pending, rfl⟩)
    · rw [hx, hy]
      exact .error fault
  | exhausted => exact .ok (renames_giveUp _ pending)
  | decide x rest =>
    simp only [Move.rename]
    rcases (current.decide injective x rest false).ok_or_error with
      ⟨low, low', hlow, hlow', relatedLow⟩ | ⟨fault, hlow, hlow'⟩
    · rcases (current.decide injective x rest true).ok_or_error with
        ⟨high, high', hhigh, hhigh', relatedHigh⟩ | ⟨fault, hhigh, hhigh'⟩
      · rw [hlow, hlow', hhigh, hhigh']
        exact .ok (.next ⟨relatedHigh, .cons relatedLow pending, rfl⟩)
      · rw [hlow, hlow', hhigh, hhigh']
        exact .error fault
    · rw [hlow, hlow']
      exact .error fault

/-- Runs of renamed searches end alike, with the same work. -/
theorem Search.Renames.run (h : s.Renames ρ t) :
    Parallel ρ (fun x y => RenamedAnswer ρ x.1 y.1 ∧ y.2 = x.2) (s.run f)
      (t.run (f.rename ρ)) := by
  have step := h.step injective (f := f)
  -- The induction is on the steps of the first run; the second one makes them in parallel.
  induction s using Search.run.induct f generalizing t with
  | case1 s next hstep ih =>
    rcases step.ok_or_error with ⟨_, _, hs, ht, related⟩ | ⟨fault, hs, ht⟩
    · rw [hstep] at hs
      cases hs
      cases related with
      | next renames =>
        rw [run_of_next hstep, run_of_next ht]
        exact ih renames (renames.step injective)
    · rw [hstep] at hs
      cases hs
  | case2 s answer counters hstep =>
    rcases step.ok_or_error with ⟨_, _, hs, ht, related⟩ | ⟨fault, hs, ht⟩
    · rw [hstep] at hs
      cases hs
      cases related with
      | finish renames =>
        rw [run_of_finish hstep, run_of_finish ht]
        exact .ok ⟨renames, rfl⟩
    · rw [hstep] at hs
      cases hs
  | case3 s fault hstep =>
    rcases step.ok_or_error with ⟨_, _, hs, ht, related⟩ | ⟨fault', hs, ht⟩
    · rw [hstep] at hs
      cases hs
    · rw [hstep] at hs
      cases hs
      rw [run_of_error hstep, run_of_error ht]
      exact .error fault

/-- A search over renamed clauses and symbols answers and counts alike. -/
theorem search_rename (cnf : Cnf) (symbols : List Symbol) :
    Parallel ρ (fun x y => RenamedAnswer ρ x.1 y.1 ∧ y.2 = x.2) (search cnf symbols)
      (search (Cnf.rename ρ cnf) (symbols.map ρ)) := by
  have start : (Search.start symbols).Renames ρ (.start (symbols.map ρ)) :=
    ⟨⟨rfl, Assignment.renames_empty⟩, .nil, rfl⟩
  exact start.run injective (f := .ofCnf cnf)

end Runs

end CnfSearch.Backtrack

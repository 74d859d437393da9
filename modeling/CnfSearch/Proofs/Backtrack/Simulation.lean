import CnfSearch.Backtrack.Recursion
import CnfSearch.Proofs.Backtrack.Decision
import CnfSearch.Proofs.Backtrack.Runs
import CnfSearch.Random.Generator

set_option autoImplicit false

/-!
# The search with waiting alternatives and the recursion

The waiting alternatives of a search are what the recursion still has to do when a call returns. A
run from a branch is therefore the call of the recursion on that branch, followed by the waiting
alternatives if the call finds nothing (`run_eq_bind_explore`). With no alternative waiting the two
searches give the same answer and count the same work: `search_eq_exploreAll`, and for a solver
`backtracking_eq_recursion`.
-/

namespace CnfSearch

namespace Backtrack

namespace Search

variable {f : Formula} {s : Search} {counters : Counters}

/-- What a search does with the result of a call: it ends with a model, or turns to the waiting
alternatives, the latest first. -/
def resume (f : Formula) (pending : List Branch) :
    Option Assignment × Counters → Except Fault (Answer × Counters)
  | (some model, counters) => .ok (.ok model, counters)
  | (none, counters) =>
    match pending with
    | [] => .ok (.error .unsatisfiable, counters)
    | b :: rest => run f ⟨b, rest, counters⟩

theorem run_of_giveUp (h : s.step f = .ok (giveUp s.pending counters)) :
    s.run f = resume f s.pending (none, counters) := by
  cases hpending : s.pending with
  | nil =>
    rw [hpending] at h
    exact run_of_finish h
  | cons b rest =>
    rw [hpending] at h
    exact run_of_next h

end Search

/-! ## The rules of the two searches -/

theorem fill_eq_assignAll (model : Assignment) (remaining : List Symbol) :
    fill model remaining = model.assignAll (remaining.map fun s => ⟨s, true⟩) := by
  induction remaining generalizing model with
  | nil => rfl
  | cons s rest ih =>
    rw [fill, List.map_cons, Assignment.assignAll]
    cases model.assign ⟨s, true⟩ with
    | ok extended => exact ih extended
    | error fault => rfl

/-- The move of a branch is the one that is due. -/
theorem Branch.move_eq_of_due {b : Branch} {f : Formula} {m : Move} (due : b.Due f m) :
    b.move f = m := by
  rw [move]
  cases due with
  | succeed satisfied => rw [if_pos satisfied]
  | conflict unsatisfied falsified => simp [unsatisfied, falsified]
  | pure undecided first => simp [undecided.unsatisfied, undecided.unfalsified, first]
  | unit undecided noPure first =>
    simp [undecided.unsatisfied, undecided.unfalsified, noPure, first]
  | exhausted undecided noPure noUnit closed =>
    rw [closed] at noPure
    simp [undecided.unsatisfied, undecided.unfalsified, noPure, noUnit, closed]
  | decide undecided noPure noUnit first =>
    rw [first] at noPure
    simp [undecided.unsatisfied, undecided.unfalsified, noPure, noUnit, first]

/-- Whether a symbol can be assigned does not depend on the value. -/
theorem assign_eq_error_iff_of_symbol {model : Assignment} {s : Symbol} {value other : Bool}
    {fault : Fault} : model.assign ⟨s, value⟩ = .error fault ↔
      model.assign ⟨s, other⟩ = .error fault := by
  rw [Assignment.assign_eq_error_iff, Assignment.assign_eq_error_iff]

theorem exists_assign_false {model high : Assignment} {s : Symbol}
    (h : model.assign ⟨s, true⟩ = .ok high) : ∃ low, model.assign ⟨s, false⟩ = .ok low := by
  cases hlow : model.assign ⟨s, false⟩ with
  | ok low => exact ⟨low, rfl⟩
  | error fault =>
    rw [assign_eq_error_iff_of_symbol.mp hlow] at h
    cases h

section Rules

variable {cnf : Cnf} {remaining rest : List Symbol} {model high low : Assignment}
  {c : Counters} {pending : List Branch} {l : Literal} {s : Symbol}

theorem Search.run_of_succeed (satisfied : Cnf.allSatisfied cnf model = true) :
    run (.ofCnf cnf) ⟨⟨remaining, model⟩, pending, c⟩ =
      match fill model remaining with
      | .ok filled => .ok (.ok filled, c)
      | .error fault => .error fault := by
  have due : Branch.Due (.ofCnf cnf) ⟨remaining, model⟩ .succeed := .succeed satisfied
  rw [fill_eq_assignAll]
  cases h : model.assignAll (remaining.map fun s => ⟨s, true⟩) with
  | ok filled =>
    apply run_of_finish
    simp only [step, Branch.move_eq_of_due due, Branch.complete, h]
  | error fault =>
    apply run_of_error
    simp only [step, Branch.move_eq_of_due due, Branch.complete, h]

theorem Search.run_of_pure (due : Branch.Due (.ofCnf cnf) ⟨remaining, model⟩ (.pure l)) :
    run (.ofCnf cnf) ⟨⟨remaining, model⟩, pending, c⟩ =
      match model.assign l with
      | .ok extended =>
        run (.ofCnf cnf) ⟨⟨remaining.erase l.symbol, extended⟩, pending,
          { c with pureLiterals := c.pureLiterals + 1 }⟩
      | .error fault => .error fault := by
  cases h : model.assign l with
  | ok extended =>
    apply run_of_next
    simp only [step, Branch.move_eq_of_due due, Branch.follow, h]
  | error fault =>
    apply run_of_error
    simp only [step, Branch.move_eq_of_due due, Branch.follow, h]

theorem Search.run_of_unit (due : Branch.Due (.ofCnf cnf) ⟨remaining, model⟩ (.unit l)) :
    run (.ofCnf cnf) ⟨⟨remaining, model⟩, pending, c⟩ =
      match model.assign l with
      | .ok extended =>
        run (.ofCnf cnf) ⟨⟨remaining.erase l.symbol, extended⟩, pending,
          { c with propagations := c.propagations + 1 }⟩
      | .error fault => .error fault := by
  cases h : model.assign l with
  | ok extended =>
    apply run_of_next
    simp only [step, Branch.move_eq_of_due due, Branch.follow, h]
  | error fault =>
    apply run_of_error
    simp only [step, Branch.move_eq_of_due due, Branch.follow, h]

/-- A decision leaves the other value waiting. -/
theorem Search.run_of_decide
    (due : Branch.Due (.ofCnf cnf) ⟨s :: rest, model⟩ (.decide s rest))
    (hhigh : model.assign ⟨s, true⟩ = .ok high) (hlow : model.assign ⟨s, false⟩ = .ok low) :
    run (.ofCnf cnf) ⟨⟨s :: rest, model⟩, pending, c⟩ =
      run (.ofCnf cnf) ⟨⟨rest, high⟩, ⟨rest, low⟩ :: pending,
        { c with decisions := c.decisions + 1 }⟩ := by
  apply run_of_next
  simp only [step, Branch.move_eq_of_due due, Branch.decide, hhigh, hlow]

variable (unsatisfied : ¬ Cnf.allSatisfied cnf model = true)
  (unfalsified : ¬ Cnf.anyFalsified cnf model = true)

include unsatisfied unfalsified

theorem undecided_of_tests : Branch.Undecided (.ofCnf cnf) ⟨remaining, model⟩ :=
  ⟨Bool.eq_false_iff.mpr unsatisfied, Bool.eq_false_iff.mpr unfalsified⟩

theorem explore_of_pure (first : firstPure? (pureLiterals cnf) remaining = some l) :
    explore cnf remaining model c =
      match model.assign l with
      | .ok extended =>
        explore cnf (remaining.erase l.symbol) extended
          { c with pureLiterals := c.pureLiterals + 1 }
      | .error fault => .error fault := by
  rw [explore, if_neg unsatisfied, if_neg unfalsified]
  split
  next k found =>
    obtain rfl := Option.some.inj (found.symm.trans first)
    cases model.assign k <;> rfl
  next none => cases none.symm.trans first

variable (noPure : firstPure? (pureLiterals cnf) remaining = none)

include noPure

theorem explore_of_unit (first : firstUnit? cnf model = some l) :
    explore cnf remaining model c =
      match model.assign l with
      | .ok extended =>
        explore cnf (remaining.erase l.symbol) extended
          { c with propagations := c.propagations + 1 }
      | .error fault => .error fault := by
  rw [explore, if_neg unsatisfied, if_neg unfalsified]
  split
  next found => cases found.symm.trans noPure
  next =>
    split
    next k found =>
      obtain rfl := Option.some.inj (found.symm.trans first)
      cases model.assign k <;> rfl
    next none => cases none.symm.trans first

theorem explore_of_undecided (noUnit : firstUnit? cnf model = none) :
    explore cnf remaining model c =
      match remaining with
      | [] => .ok (none, c)
      | s :: rest =>
        match model.assign ⟨s, true⟩ with
        | .error fault => .error fault
        | .ok high =>
          explore cnf rest high { c with decisions := c.decisions + 1 } >>= fun
            | (some found, c') => .ok (some found, c')
            | (none, c') =>
              match model.assign ⟨s, false⟩ with
              | .ok low => explore cnf rest low c'
              | .error fault => .error fault := by
  rw [explore, if_neg unsatisfied, if_neg unfalsified]
  split
  next found => cases found.symm.trans noPure
  next =>
    split
    next found => cases found.symm.trans noUnit
    next =>
      cases remaining with
      | nil => rfl
      | cons s rest =>
        dsimp only
        cases hhigh : model.assign ⟨s, true⟩ with
        | error fault => rfl
        | ok high =>
          dsimp only
          rcases explore cnf rest high { c with decisions := c.decisions + 1 } with
            fault | ⟨_ | found, c'⟩
          · rfl
          · dsimp only
            cases model.assign ⟨s, false⟩ <;> rfl
          · rfl

omit noPure in
/-- A decision calls the recursion on the second value only after the first one found nothing. -/
theorem explore_of_decide (noPure : firstPure? (pureLiterals cnf) (s :: rest) = none)
    (noUnit : firstUnit? cnf model = none) (hhigh : model.assign ⟨s, true⟩ = .ok high)
    (hlow : model.assign ⟨s, false⟩ = .ok low) :
    explore cnf (s :: rest) model c =
      explore cnf rest high { c with decisions := c.decisions + 1 } >>= fun
        | (some found, c') => .ok (some found, c')
        | (none, c') => explore cnf rest low c' := by
  rw [explore_of_undecided unsatisfied unfalsified noPure noUnit]
  dsimp only
  rw [hhigh, hlow]

end Rules

/-! ## The simulation -/

/-- A run from a branch is the recursion's call on it, followed by the waiting alternatives. -/
theorem run_eq_bind_explore (cnf : Cnf) (remaining : List Symbol) (model : Assignment)
    (c : Counters) (pending : List Branch) :
    Search.run (.ofCnf cnf) ⟨⟨remaining, model⟩, pending, c⟩ =
      explore cnf remaining model c >>= Search.resume (.ofCnf cnf) pending := by
  -- The induction is on the calls of the recursion, for all lists of waiting alternatives at once.
  induction remaining, model, c using explore.induct cnf generalizing pending with
  | case1 remaining model c satisfied filled hfill =>
    rw [Search.run_of_succeed satisfied, explore, if_pos satisfied, hfill]
    rfl
  | case2 remaining model c satisfied fault hfill =>
    rw [Search.run_of_succeed satisfied, explore, if_pos satisfied, hfill]
    rfl
  | case3 remaining model c unsatisfied falsified =>
    have due : Branch.Due (.ofCnf cnf) ⟨remaining, model⟩ .conflict :=
      .conflict (Bool.eq_false_iff.mpr unsatisfied) falsified
    rw [explore, if_neg unsatisfied, if_pos falsified]
    exact Search.run_of_giveUp (s := ⟨⟨remaining, model⟩, pending, c⟩)
      (by simp only [Search.step, Branch.move_eq_of_due due])
  | case4 remaining model c unsatisfied unfalsified l first extended h ih =>
    have due := Branch.Due.pure (undecided_of_tests unsatisfied unfalsified) first
    rw [Search.run_of_pure due, explore_of_pure unsatisfied unfalsified first, h]
    exact ih pending
  | case5 remaining model c unsatisfied unfalsified l first fault h =>
    have due := Branch.Due.pure (undecided_of_tests unsatisfied unfalsified) first
    rw [Search.run_of_pure due, explore_of_pure unsatisfied unfalsified first, h]
    rfl
  | case6 remaining model c unsatisfied unfalsified noPure l first extended h ih =>
    have due := Branch.Due.unit (undecided_of_tests unsatisfied unfalsified) noPure first
    rw [Search.run_of_unit due, explore_of_unit unsatisfied unfalsified noPure first, h]
    exact ih pending
  | case7 remaining model c unsatisfied unfalsified noPure l first fault h =>
    have due := Branch.Due.unit (undecided_of_tests unsatisfied unfalsified) noPure first
    rw [Search.run_of_unit due, explore_of_unit unsatisfied unfalsified noPure first, h]
    rfl
  | case8 model c unsatisfied unfalsified noUnit noPure =>
    have due : Branch.Due (.ofCnf cnf) ⟨[], model⟩ .exhausted :=
      .exhausted (undecided_of_tests unsatisfied unfalsified) noPure noUnit rfl
    rw [explore_of_undecided unsatisfied unfalsified noPure noUnit]
    exact Search.run_of_giveUp (s := ⟨⟨[], model⟩, pending, c⟩)
      (by simp only [Search.step, Branch.move_eq_of_due due])
  | case9 model c unsatisfied unfalsified noUnit s rest noPure fault h =>
    have due : Branch.Due (.ofCnf cnf) ⟨s :: rest, model⟩ (.decide s rest) :=
      .decide (undecided_of_tests unsatisfied unfalsified) noPure noUnit rfl
    have hlow : model.assign ⟨s, false⟩ = .error fault := assign_eq_error_iff_of_symbol.mp h
    rw [explore_of_undecided unsatisfied unfalsified noPure noUnit]
    dsimp only
    rw [h]
    exact Search.run_of_error
      (by simp only [Search.step, Branch.move_eq_of_due due, Branch.decide, h, hlow])
  -- The first side of a decision is explored with the second one waiting.
  | case10 model c unsatisfied unfalsified noUnit s rest noPure high hhigh fault hexplore ih =>
    obtain ⟨low, hlow⟩ := exists_assign_false hhigh
    have due := Branch.Due.decide (undecided_of_tests unsatisfied unfalsified) noPure noUnit rfl
    rw [Search.run_of_decide due hhigh hlow,
      explore_of_decide unsatisfied unfalsified noPure noUnit hhigh hlow, ih, hexplore]
    rfl
  | case11 model c unsatisfied unfalsified noUnit s rest noPure high hhigh found c' hexplore ih =>
    obtain ⟨low, hlow⟩ := exists_assign_false hhigh
    have due := Branch.Due.decide (undecided_of_tests unsatisfied unfalsified) noPure noUnit rfl
    rw [Search.run_of_decide due hhigh hlow,
      explore_of_decide unsatisfied unfalsified noPure noUnit hhigh hlow, ih, hexplore]
    rfl
  | case12 model c unsatisfied unfalsified noUnit s rest noPure high hhigh c' hexplore low hlow ih
      ihlow =>
    have due := Branch.Due.decide (undecided_of_tests unsatisfied unfalsified) noPure noUnit rfl
    rw [Search.run_of_decide due hhigh hlow,
      explore_of_decide unsatisfied unfalsified noPure noUnit hhigh hlow, ih, hexplore]
    exact ihlow pending
  -- Where one value can be assigned, so can the other.
  | case13 model c unsatisfied unfalsified noUnit s rest noPure high hhigh c' hexplore fault hlow
      ih =>
    obtain ⟨low, hok⟩ := exists_assign_false hhigh
    rw [hlow] at hok
    cases hok

/-- The two searches give the same answer or fault, and the same counters. -/
theorem search_eq_exploreAll (cnf : Cnf) (symbols : List Symbol) :
    search cnf symbols = exploreAll cnf symbols := by
  rw [search, Search.start, run_eq_bind_explore, exploreAll]
  rcases explore cnf symbols .empty {} with fault | ⟨_ | model, counters⟩ <;> rfl

end Backtrack

/-- Over declared, distinct symbols the recursion ends without a fault, and backtracking gives the
same answer, the model in the same assignment order, and counts the same work. -/
theorem backtracking_eq_recursion {G : Type} [DrawSource G] (cnf : Cnf) (symbols : List Symbol)
    (distinct : symbols.Nodup) (declared : ∀ c ∈ cnf, ∀ l ∈ c.literals, l.symbol ∈ symbols)
    (counters : Counters) :
    ∃ answer work, Backtrack.exploreAll cnf symbols = .ok (answer, work) ∧
      (Solver.backtracking counters : Solver G).solve cnf symbols =
        .ok (answer, .backtracking work) := by
  obtain ⟨answer, work, hsearch, -⟩ := Backtrack.search_decides distinct declared
  refine ⟨answer, work, ?_, Solver.solve_backtracking declared hsearch⟩
  rw [← Backtrack.search_eq_exploreAll]
  exact hsearch

/-- All four clauses of two symbols. -/
def allPairs : Cnf :=
  [⟨[⟨"p", true⟩, ⟨"q", true⟩], by simp⟩, ⟨[⟨"p", true⟩, ⟨"q", false⟩], by simp⟩,
    ⟨[⟨"p", false⟩, ⟨"q", true⟩], by simp⟩, ⟨[⟨"p", false⟩, ⟨"q", false⟩], by simp⟩]

/-- The first of the two symbols with a value. -/
def allPairsSide (value : Bool) : Assignment := .extend .empty ⟨"p", value⟩ (by cbv)

/-- The search on all clauses of two symbols runs through the whole tree. -/
theorem Backtrack.search_allPairs : search allPairs ["p", "q"] =
    .ok (.error .unsatisfiable, { decisions := 3, conflicts := 4 }) := by
  have last : Search.step (.ofCnf allPairs)
      ⟨⟨[], (allPairsSide false).extend ⟨"q", false⟩ (by cbv)⟩, [],
        { decisions := 3, conflicts := 3 }⟩ =
      .ok (.finish (.error .unsatisfiable) { decisions := 3, conflicts := 4 }) := by cbv
  rw [search,
    Search.run_of_next (t := ⟨⟨["q"], allPairsSide true⟩, [⟨["q"], allPairsSide false⟩],
      { decisions := 1 }⟩) (by cbv),
    Search.run_of_next (t := ⟨⟨[], (allPairsSide true).extend ⟨"q", true⟩ (by cbv)⟩,
      [⟨[], (allPairsSide true).extend ⟨"q", false⟩ (by cbv)⟩, ⟨["q"], allPairsSide false⟩],
      { decisions := 2 }⟩) (by cbv),
    Search.run_of_next (t := ⟨⟨[], (allPairsSide true).extend ⟨"q", false⟩ (by cbv)⟩,
      [⟨["q"], allPairsSide false⟩], { decisions := 2, conflicts := 1 }⟩) (by cbv),
    Search.run_of_next (t := ⟨⟨["q"], allPairsSide false⟩, [],
      { decisions := 2, conflicts := 2 }⟩) (by cbv),
    Search.run_of_next (t := ⟨⟨[], (allPairsSide false).extend ⟨"q", true⟩ (by cbv)⟩,
      [⟨[], (allPairsSide false).extend ⟨"q", false⟩ (by cbv)⟩],
      { decisions := 3, conflicts := 2 }⟩) (by cbv),
    Search.run_of_next (t := ⟨⟨[], (allPairsSide false).extend ⟨"q", false⟩ (by cbv)⟩, [],
      { decisions := 3, conflicts := 3 }⟩) (by cbv),
    Search.run_of_finish last]

/-- Here both searches take back every decision: three of them, with four conflicts. -/
theorem backtracking_eq_recursion_allPairs :
    ["p", "q"].Nodup ∧ (∀ c ∈ allPairs, ∀ l ∈ c.literals, l.symbol ∈ ["p", "q"]) ∧
      Backtrack.exploreAll allPairs ["p", "q"] =
        .ok (.error .unsatisfiable, { decisions := 3, conflicts := 4 }) ∧
      (Solver.backtracking {} : Solver Generator).solve allPairs ["p", "q"] =
        .ok (.error .unsatisfiable, .backtracking { decisions := 3, conflicts := 4 }) := by
  have distinct : ["p", "q"].Nodup := by decide
  have declared : ∀ c ∈ allPairs, ∀ l ∈ c.literals, l.symbol ∈ ["p", "q"] := by decide
  have found : (Solver.backtracking {} : Solver Generator).solve allPairs ["p", "q"] =
      .ok (.error .unsatisfiable, .backtracking { decisions := 3, conflicts := 4 }) :=
    Solver.solve_backtracking declared Backtrack.search_allPairs
  obtain ⟨answer, work, hexplore, hsolve⟩ :=
    backtracking_eq_recursion (G := Generator) allPairs ["p", "q"] distinct declared {}
  rw [found] at hsolve
  cases hsolve
  exact ⟨distinct, declared, hexplore, found⟩

end CnfSearch

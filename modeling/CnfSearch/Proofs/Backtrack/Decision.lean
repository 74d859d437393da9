import CnfSearch.Proofs.Backtrack.Expansion
import CnfSearch.Proofs.Solver.Declared
import CnfSearch.Random.Generator

set_option autoImplicit false

/-!
# Backtracking decides satisfiability

The branches that are left at any time of a search form a frontier: if the clauses have a model at
all, one of these branches extends to a model (`Frontier`). A pure literal and a unit literal keep a
model of their branch, a decision keeps it on one of its sides, and a branch with a falsified clause
has none; so every expansion keeps the frontier (`Frontier.expand`). A search that runs out of
branches has therefore shown that there is no model, and every search ends with a model, with that,
or at a symbol that the list repeats (`run_cases`). Over distinct symbols it decides:
`search_decides`.
-/

namespace CnfSearch

/-- An answer is right if it is a model, or the failure `unsatisfiable` where there is none. -/
def Decides (cnf : Cnf) (symbols : List Symbol) : Answer → Prop
  | .ok model => model.IsModel cnf symbols
  | .error failure => failure = .unsatisfiable ∧ ¬ cnf.Satisfiable

namespace Backtrack

/-! ## Branches that extend to a model -/

/-- Some valuation makes all clauses true and extends the branch. -/
def Branch.Viable (cnf : Cnf) (b : Branch) : Prop :=
  ∃ v : Valuation, Cnf.eval v cnf = true ∧ v.Extends b.model

theorem Branch.not_viable_of_anyFalsified {cnf : Cnf} {b : Branch}
    (falsified : Cnf.anyFalsified cnf b.model = true) : ¬ b.Viable cnf := by
  rintro ⟨v, hv, hext⟩
  rw [Cnf.eval_of_anyFalsified hext falsified] at hv
  cases hv

section Follow

variable {f : Formula} {b d : Branch} {l : Literal} (followed : b.follow l = .ok d)

include followed

theorem Branch.extends_follow_iff {v : Valuation} :
    v.Extends d.model ↔ v.Extends b.model ∧ l.eval v = true :=
  Valuation.extends_append_iff (of_follow_eq_ok followed).2

/-- A pure literal keeps a model: where the model makes it false, it can be turned around. -/
theorem Branch.Viable.follow_pure (first : firstPure? f.pures b.remaining = some l)
    (h : b.Viable f.clauses) : d.Viable f.clauses := by
  obtain ⟨v, hv, hext⟩ := h
  obtain ⟨-, unopposed, -⟩ := spec_of_firstPure? first
  -- No clause has the opposite literal, so none becomes false when the literal is forced.
  refine ⟨v.force l, Cnf.eval_force_of_opposite_notMem unopposed hv, ?_⟩
  rw [extends_follow_iff followed]
  exact ⟨hext.force (notMem_symbols_of_follow followed), Literal.eval_force_self v l⟩

/-- A unit literal keeps every model: its clause has no other literal to be true. -/
theorem Branch.Viable.follow_unit (first : firstUnit? f.clauses b.model = some l)
    (h : b.Viable f.clauses) : d.Viable f.clauses := by
  obtain ⟨v, hv, hext⟩ := h
  obtain ⟨c, hc, hsole, -⟩ := spec_of_firstUnit? first
  obtain ⟨k, hk, hkv⟩ := (Cnf.eval_eq_true_iff v f.clauses).mp hv c hc
  rw [hsole, List.mem_singleton] at hk
  subst hk
  exact ⟨v, hv, (extends_follow_iff followed).mpr ⟨hext, hkv⟩⟩

end Follow

/-- A model of a branch gives the decided symbol one of the two values. -/
theorem Branch.Viable.follow_either {cnf : Cnf} {b high low : Branch} {s : Symbol}
    (followedHigh : b.follow ⟨s, true⟩ = .ok high) (followedLow : b.follow ⟨s, false⟩ = .ok low)
    (h : b.Viable cnf) : high.Viable cnf ∨ low.Viable cnf := by
  obtain ⟨v, hv, hext⟩ := h
  cases hs : v s with
  | true =>
    have heval : (Literal.mk s true).eval v = true := by simp [Literal.eval, hs]
    exact Or.inl ⟨v, hv, (extends_follow_iff followedHigh).mpr ⟨hext, heval⟩⟩
  | false =>
    have heval : (Literal.mk s false).eval v = true := by simp [Literal.eval, hs]
    exact Or.inr ⟨v, hv, (extends_follow_iff followedLow).mpr ⟨hext, heval⟩⟩

/-- If a branch extends to a model, so does one of its children. -/
theorem Branch.Expands.viable {f : Formula} {b : Branch} {children : List Branch} {work : Counters}
    (hexp : b.Expands f children work) (h : b.Viable f.clauses) :
    ∃ d ∈ children, d.Viable f.clauses := by
  cases hexp with
  | conflict falsified => exact absurd h (not_viable_of_anyFalsified falsified)
  | pure _ first followed => simpa using h.follow_pure followed first
  | unit _ _ first _ followed => simpa using h.follow_unit followed first
  | decide _ _ _ _ followedHigh followedLow => simpa using h.follow_either followedHigh followedLow

/-! ## The frontier of a search -/

/-- Branches that split the symbols and of which one extends to a model, if there is any. -/
structure Frontier (cnf : Cnf) (symbols : List Symbol) (branches : List Branch) : Prop where
  splits : ∀ b ∈ branches, b.Splits symbols
  covers : cnf.Satisfiable → ∃ b ∈ branches, b.Viable cnf

/-- The branch that a search starts with extends to every model. -/
theorem frontier_start (cnf : Cnf) (symbols : List Symbol) :
    Frontier cnf symbols [⟨symbols, .empty⟩] where
  splits := by simpa using Branch.splits_start symbols
  covers := by
    rintro ⟨v, hv⟩
    exact ⟨_, List.mem_singleton_self _, v, hv, v.extends_empty⟩

/-- Replacing a branch by its children keeps the frontier. -/
theorem Frontier.expand {f : Formula} {symbols : List Symbol} {b : Branch}
    {children rest : List Branch} {work : Counters} (h : Frontier f.clauses symbols (b :: rest))
    (hexp : b.Expands f children work) : Frontier f.clauses symbols (children ++ rest) where
  splits := by
    have hb := h.splits b List.mem_cons_self
    rw [List.forall_mem_append]
    exact ⟨hexp.splits hb, fun d hd => h.splits d (List.mem_cons_of_mem b hd)⟩
  covers := by
    intro hsat
    obtain ⟨d, hd, viable⟩ := h.covers hsat
    -- The branch that extends to a model is the replaced one or one that stays.
    rcases List.mem_cons.mp hd with rfl | hrest
    · obtain ⟨e, he, viable'⟩ := hexp.viable viable
      exact ⟨e, List.mem_append_left rest he, viable'⟩
    · exact ⟨d, List.mem_append_right children hrest, viable⟩

/-- The open symbols of a branch that satisfies all clauses are free. -/
theorem Branch.Splits.isModel_of_complete {cnf : Cnf} {symbols : List Symbol} {b : Branch}
    {m : Assignment} (h : b.Splits symbols) (satisfied : Cnf.allSatisfied cnf b.model = true)
    (hcomplete : b.complete = .ok m) : m.IsModel cnf symbols := by
  have hlist : m.toList = b.model.toList ++ b.remaining.map fun s => ⟨s, true⟩ := by
    rcases h.complete_cases with ⟨m', hm', hlist⟩ | ⟨s, -, refused⟩
    · obtain rfl : m' = m := Except.ok.inj (hm'.symm.trans hcomplete)
      exact hlist
    · rw [refused] at hcomplete
      cases hcomplete
  constructor
  · have hsymbols : m.symbols = b.model.symbols ++ b.remaining := by
      simp [Assignment.symbols, hlist, Function.comp_def]
    rw [hsymbols]
    exact h.partition
  · intro c hc
    obtain ⟨l, hl, held⟩ := Cnf.allSatisfied_iff.mp satisfied c hc
    exact ⟨l, hl, by rw [hlist]; exact List.mem_append_left _ held⟩

/-! ## Steps and runs -/

/-- A step leads to a frontier or finishes with a right answer. -/
def Step.Correct (cnf : Cnf) (symbols : List Symbol) : Step → Prop
  | .next s => Frontier cnf symbols (s.current :: s.pending)
  | .finish answer _ => Decides cnf symbols answer

/-- A frontier without branches shows that there is no model. -/
theorem Frontier.correct_giveUp {cnf : Cnf} {symbols : List Symbol} {branches : List Branch}
    (h : Frontier cnf symbols branches) (counters : Counters) :
    (Search.giveUp branches counters).Correct cnf symbols := by
  cases branches with
  | nil =>
    refine ⟨rfl, fun hsat => ?_⟩
    obtain ⟨b, hb, -⟩ := h.covers hsat
    cases hb
  | cons b rest => exact h

section Declared

variable {f : Formula} {symbols : List Symbol}
  (declared : ∀ c ∈ f.clauses, ∀ l ∈ c.literals, l.symbol ∈ symbols)

include declared

/-- From a frontier a step leads to a frontier, finishes with a right answer, or fails at a repeated
symbol. -/
theorem step_cases {s : Search} (h : Frontier f.clauses symbols (s.current :: s.pending)) :
    (∃ next, s.step f = .ok next ∧ next.Correct f.clauses symbols) ∨
      ∃ x, List.Duplicate x symbols ∧ s.step f = .error (.reassigned x) := by
  have hcurrent := h.splits s.current List.mem_cons_self
  rcases Search.step_cases declared hcurrent with
    ⟨model, satisfied, hcomplete, hstep⟩ | ⟨children, work, hexp, hstep⟩ | fails
  · exact Or.inl ⟨_, hstep, hcurrent.isModel_of_complete satisfied hcomplete⟩
  · exact Or.inl ⟨_, hstep, (h.expand hexp).correct_giveUp _⟩
  · exact Or.inr fails

/-- A run from a frontier ends with a right answer or fails at a repeated symbol. -/
theorem run_cases (s : Search) (h : Frontier f.clauses symbols (s.current :: s.pending)) :
    (∃ answer counters, s.run f = .ok (answer, counters) ∧ Decides f.clauses symbols answer) ∨
      ∃ x, List.Duplicate x symbols ∧ s.run f = .error (.reassigned x) := by
  have step := step_cases declared h
  -- The induction is on the steps of the run, each of which hands the frontier on.
  induction s using Search.run.induct f with
  | case1 s t hstep ih =>
    rw [Search.run, hstep]
    rcases step with ⟨next, hnext, correct⟩ | ⟨x, -, fails⟩
    · obtain rfl : .next t = next := Except.ok.inj (hstep.symm.trans hnext)
      exact ih correct (step_cases declared correct)
    · rw [hstep] at fails
      cases fails
  | case2 s answer counters hstep =>
    rw [Search.run, hstep]
    rcases step with ⟨next, hnext, correct⟩ | ⟨x, -, fails⟩
    · obtain rfl : .finish answer counters = next := Except.ok.inj (hstep.symm.trans hnext)
      exact Or.inl ⟨answer, counters, rfl, correct⟩
    · rw [hstep] at fails
      cases fails
  | case3 s fault hstep =>
    rw [Search.run, hstep]
    rw [hstep] at step
    rcases step with ⟨next, hnext, -⟩ | ⟨x, duplicate, fails⟩
    · cases hnext
    · cases fails
      exact Or.inr ⟨x, duplicate, rfl⟩

end Declared

/-- A search for a model of declared clauses ends with a right answer or fails at a repeated
symbol. -/
theorem search_cases {cnf : Cnf} {symbols : List Symbol}
    (declared : ∀ c ∈ cnf, ∀ l ∈ c.literals, l.symbol ∈ symbols) :
    (∃ answer counters, search cnf symbols = .ok (answer, counters) ∧ Decides cnf symbols answer) ∨
      ∃ x, List.Duplicate x symbols ∧ search cnf symbols = .error (.reassigned x) :=
  run_cases (f := .ofCnf cnf) declared (.start symbols) (frontier_start cnf symbols)

/-- Over distinct symbols a search for a model of declared clauses ends with a right answer. -/
theorem search_decides {cnf : Cnf} {symbols : List Symbol} (distinct : symbols.Nodup)
    (declared : ∀ c ∈ cnf, ∀ l ∈ c.literals, l.symbol ∈ symbols) :
    ∃ answer counters,
      search cnf symbols = .ok (answer, counters) ∧ Decides cnf symbols answer := by
  rcases search_cases declared with decides | ⟨x, duplicate, -⟩
  · exact decides
  · exact absurd distinct duplicate.not_nodup

end Backtrack

/-! ## The decision procedure -/

/-- Backtracking ends, without a fault, with a model of exactly the declared symbols or with the
failure `unsatisfiable`, and with the latter exactly if no valuation makes every clause true. -/
theorem backtracking_decides {G : Type} [DrawSource G] (cnf : Cnf) (symbols : List Symbol)
    (distinct : symbols.Nodup) (declared : ∀ c ∈ cnf, ∀ l ∈ c.literals, l.symbol ∈ symbols)
    (counters : Counters) :
    ∃ answer work,
      (Solver.backtracking counters : Solver G).solve cnf symbols =
          .ok (answer, .backtracking work) ∧
        ((∃ model, answer = .ok model) ∨ answer = .error .unsatisfiable) ∧
        (∀ model, answer = .ok model → (model.toList.map Literal.symbol).Perm symbols ∧
          ∀ c ∈ cnf, ∃ l ∈ c.literals, model.holds l = true) ∧
        (answer = .error .unsatisfiable ↔ ¬ ∃ v : Valuation, Cnf.eval v cnf = true) := by
  obtain ⟨answer, work, hsearch, decides⟩ := Backtrack.search_decides distinct declared
  refine ⟨answer, work, Solver.solve_backtracking declared hsearch, ?_⟩
  cases answer with
  | ok model =>
    refine ⟨Or.inl ⟨model, rfl⟩, ?_, ?_⟩
    · rintro _ ⟨⟩
      refine ⟨decides.assigns, fun c hc => ?_⟩
      obtain ⟨l, hl, held⟩ := decides.satisfies c hc
      exact ⟨l, hl, (model.holds_iff l).mpr held⟩
    · refine iff_of_false (fun h => ?_) (fun h => h decides.satisfiable)
      cases h
  | error failure =>
    obtain ⟨rfl, unsatisfiable⟩ := decides
    refine ⟨Or.inr rfl, ?_, iff_of_true rfl unsatisfiable⟩
    rintro _ ⟨⟩

/-- Of two symbols exactly one is true. -/
def exclusiveOr : Cnf :=
  [⟨[⟨"a", true⟩, ⟨"b", true⟩], by simp⟩, ⟨[⟨"a", false⟩, ⟨"b", false⟩], by simp⟩]

/-- Backtracking, which has to take back a decision here, finds a model of the exclusive or. -/
theorem backtracking_decides_exclusiveOr :
    ["a", "b"].Nodup ∧ (∀ c ∈ exclusiveOr, ∀ l ∈ c.literals, l.symbol ∈ ["a", "b"]) ∧
      ∃ model work,
        (Solver.backtracking {} : Solver Generator).solve exclusiveOr ["a", "b"] =
            .ok (.ok model, .backtracking work) ∧
          (model.toList.map Literal.symbol).Perm ["a", "b"] ∧
          ∀ c ∈ exclusiveOr, ∃ l ∈ c.literals, model.holds l = true := by
  have distinct : ["a", "b"].Nodup := by decide
  have declared : ∀ c ∈ exclusiveOr, ∀ l ∈ c.literals, l.symbol ∈ ["a", "b"] := by decide
  have satisfiable : ∃ v : Valuation, Cnf.eval v exclusiveOr = true :=
    ⟨fun s => s == "a", by decide⟩
  obtain ⟨answer, work, hsolve, hanswer, hmodel, hunsat⟩ :=
    backtracking_decides (G := Generator) exclusiveOr ["a", "b"] distinct declared {}
  rcases hanswer with ⟨model, rfl⟩ | hnone
  · obtain ⟨assigns, satisfies⟩ := hmodel model rfl
    exact ⟨distinct, declared, model, work, hsolve, assigns, satisfies⟩
  · exact absurd satisfiable (hunsat.mp hnone)

end CnfSearch

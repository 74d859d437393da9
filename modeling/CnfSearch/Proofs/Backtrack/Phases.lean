import CnfSearch.Proofs.Backtrack.Decision
import CnfSearch.Proofs.Backtrack.Runs
import CnfSearch.Random.Generator

set_option autoImplicit false

/-!
# Forced literals come before decisions

The clauses never change during a search, so a symbol that is not pure stays so while symbols are
closed, and a unit literal that is held stays held. A search therefore follows pure literals, then
unit literals (`Search.Forces`), and from then on only decides: every branch has assigned these
forced literals and behind them the first open symbols in their order (`Branch.Behind`). The phases
of whole runs are in `backtracking_forces_first`.
-/

namespace CnfSearch

namespace Backtrack

/-! ## Branches without forced literals -/

/-- Neither test for a forced literal finds one. -/
structure Branch.Settled (f : Formula) (b : Branch) : Prop where
  noPure : firstPure? f.pures b.remaining = none
  noUnit : firstUnit? f.clauses b.model = none

/-- No literal is forced: the branch ends here, or it is settled. -/
def Branch.Unforced (f : Formula) (b : Branch) : Prop := b.Undecided f → b.Settled f

theorem firstPure?_eq_none_of_subset {pures : List Literal} {remaining fewer : List Symbol}
    (h : firstPure? pures remaining = none) (sub : fewer ⊆ remaining) :
    firstPure? pures fewer = none := by
  rw [firstPure?, List.find?_eq_none] at h ⊢
  intro l hl hopen
  apply h l hl
  rw [List.contains_iff_mem] at hopen ⊢
  exact sub hopen

/-- No unit clause is open exactly if the literals of all of them are held. -/
theorem firstUnit?_eq_none_iff {cnf : Cnf} {a : Assignment} :
    firstUnit? cnf a = none ↔ ∀ c ∈ cnf, ∀ l, c.literals = [l] → l ∈ a.toList := by
  rw [firstUnit?, List.findSome?_eq_none_iff]
  refine forall₂_congr fun c _ => ?_
  constructor
  · intro h l hl
    rw [← Assignment.holds_iff]
    cases hheld : a.holds l with
    | true => rfl
    | false =>
      have hopen : openUnit? a c = some l :=
        Branch.openUnit?_eq_some_iff.mpr ⟨Clause.sole?_eq_some_iff.mpr hl, hheld⟩
      rw [h] at hopen
      cases hopen
  · intro h
    cases hopen : openUnit? a c with
    | none => rfl
    | some l =>
      obtain ⟨hsole, hheld⟩ := Branch.openUnit?_eq_some_iff.mp hopen
      have held := (a.holds_iff l).mpr (h l (Clause.sole?_eq_some_iff.mp hsole))
      rw [hheld] at held
      cases held

section Follow

variable {f : Formula} {b d : Branch} {l : Literal} (followed : b.follow l = .ok d)

include followed

/-- Closing a symbol makes no other symbol pure. -/
theorem Branch.noPure_follow (h : firstPure? f.pures b.remaining = none) :
    firstPure? f.pures d.remaining = none := by
  apply firstPure?_eq_none_of_subset h
  rw [(of_follow_eq_ok followed).1]
  exact List.erase_subset

theorem Branch.Settled.follow (h : b.Settled f) : d.Settled f where
  noPure := noPure_follow followed h.noPure
  noUnit := by
    have hunit := firstUnit?_eq_none_iff.mp h.noUnit
    rw [firstUnit?_eq_none_iff]
    intro c hc k hk
    rw [(of_follow_eq_ok followed).2]
    exact List.mem_append_left _ (hunit c hc k hk)

end Follow

theorem Branch.Settled.unforced {f : Formula} {b : Branch} (h : b.Settled f) : b.Unforced f :=
  fun _ => h

/-- A branch without forced literals is given up, or its first open symbol is decided. -/
theorem Branch.Unforced.expands_cases {f : Formula} {b : Branch} {children : List Branch}
    {work : Counters} (h : b.Unforced f) (hexp : b.Expands f children work) :
    (children = [] ∧ work = { conflicts := 1 } ∧ Cnf.anyFalsified f.clauses b.model = true) ∨
      ∃ s rest high low, children = [high, low] ∧ work = { decisions := 1 } ∧ b.Settled f ∧
        b.remaining = s :: rest ∧ b.follow ⟨s, true⟩ = .ok high ∧
          b.follow ⟨s, false⟩ = .ok low := by
  cases hexp with
  | conflict falsified => exact Or.inl ⟨rfl, rfl, falsified⟩
  | pure undecided first =>
    rw [(h undecided).noPure] at first
    cases first
  | unit undecided _ first =>
    rw [(h undecided).noUnit] at first
    cases first
  | decide undecided _ _ first followedHigh followedLow =>
    exact Or.inr ⟨_, _, _, _, rfl, rfl, h undecided, first, followedHigh, followedLow⟩

/-- A conflict or a decision is all there is to tell about a branch without forced literals. -/
theorem Branch.Unforced.event {f : Formula} {s : Search} (h : s.current.Unforced f) (l : Literal) :
    s.event? f ≠ some (.pure l) ∧ s.event? f ≠ some (.unit l) := by
  rw [Search.event?.eq_def]
  have due := s.current.due_move f
  generalize s.current.move f = move at due
  cases due with
  | succeed => simp
  | conflict => simp
  | pure undecided first =>
    rw [(h undecided).noPure] at first
    cases first
  | unit undecided _ first =>
    rw [(h undecided).noUnit] at first
    cases first
  | exhausted => simp
  | decide => simp

/-! ## The way to the first branch without forced literals -/

/-- A search follows forced literals, first pure ones and then those of unit clauses, until it comes
to a branch on which none is forced. -/
inductive Search.Forces (f : Formula) : Search → List Literal → List Literal → Search → Prop where
  | done {s : Search} (unforced : s.current.Unforced f) : Forces f s [] [] s
  | unit {s t : Search} {l : Literal} {d : Branch} {units : List Literal}
      (due : s.current.move f = .unit l) (followed : s.current.follow l = .ok d)
      (rest : Forces f
        ⟨d, s.pending, { s.counters with propagations := s.counters.propagations + 1 }⟩ [] units t) :
      Forces f s [] (l :: units) t
  | pure {s t : Search} {l : Literal} {d : Branch} {pures units : List Literal}
      (due : s.current.move f = .pure l) (followed : s.current.follow l = .ok d)
      (rest : Forces f
        ⟨d, s.pending, { s.counters with pureLiterals := s.counters.pureLiterals + 1 }⟩
        pures units t) :
      Forces f s (l :: pures) units t

namespace Search

variable {f : Formula} {s t : Search} {l : Literal} {d : Branch} {pures units : List Literal}

theorem step_of_pure (due : s.current.move f = .pure l) (followed : s.current.follow l = .ok d) :
    s.step f = .ok (.next
      ⟨d, s.pending, { s.counters with pureLiterals := s.counters.pureLiterals + 1 }⟩) := by
  simp only [step, due, followed]

theorem step_of_unit (due : s.current.move f = .unit l) (followed : s.current.follow l = .ok d) :
    s.step f = .ok (.next
      ⟨d, s.pending, { s.counters with propagations := s.counters.propagations + 1 }⟩) := by
  simp only [step, due, followed]

theorem event?_of_pure (due : s.current.move f = .pure l) : s.event? f = some (.pure l) := by
  simp only [event?, due]

theorem event?_of_unit (due : s.current.move f = .unit l) : s.event? f = some (.unit l) := by
  simp only [event?, due]

/-- Where no symbol is pure, none becomes pure. -/
theorem Forces.pures_eq_nil (path : s.Forces f pures units t)
    (noPure : firstPure? f.pures s.current.remaining = none) : pures = [] := by
  cases path with
  | done => rfl
  | unit => rfl
  | pure due =>
    rw [Branch.firstPure?_of_move due] at noPure
    cases noPure

/-- The literals that are followed first are pure in the clauses. -/
theorem Forces.pure_of_mem (path : s.Forces f pures units t) :
    ∀ l ∈ pures, l ∈ Cnf.literals f.clauses ∧ l.opposite ∉ Cnf.literals f.clauses := by
  induction path with
  | done => simp
  | unit => simp
  | pure due _ _ ih =>
    rw [List.forall_mem_cons]
    obtain ⟨mentioned, unopposed, -⟩ := spec_of_firstPure? (Branch.firstPure?_of_move due)
    exact ⟨⟨mentioned, unopposed⟩, ih⟩

/-- The literals that are followed then are clauses of their own. -/
theorem Forces.unit_of_mem (path : s.Forces f pures units t) :
    ∀ l ∈ units, ∃ c ∈ f.clauses, c.literals = [l] := by
  induction path with
  | done => simp
  | unit due _ _ ih =>
    rw [List.forall_mem_cons]
    obtain ⟨c, hc, hsole, -⟩ := spec_of_firstUnit? (Branch.firstUnit?_of_move due)
    exact ⟨⟨c, hc, hsole⟩, ih⟩
  | pure _ _ _ ih => exact ih

theorem Forces.unforced (path : s.Forces f pures units t) : t.current.Unforced f := by
  induction path with
  | done unforced => exact unforced
  | unit _ _ _ ih => exact ih
  | pure _ _ _ ih => exact ih

theorem Forces.pending_eq (path : s.Forces f pures units t) : t.pending = s.pending := by
  induction path with
  | done => rfl
  | unit _ _ _ ih => exact ih
  | pure _ _ _ ih => exact ih

/-- Each forced literal is counted once, and nothing is decided. -/
theorem Forces.counted (path : s.Forces f pures units t) :
    t.counters.pureLiterals = s.counters.pureLiterals + pures.length ∧
      t.counters.propagations = s.counters.propagations + units.length := by
  induction path with
  | done => exact ⟨rfl, rfl⟩
  | unit _ _ _ ih =>
    obtain ⟨hpures, hunits⟩ := ih
    dsimp only at hpures hunits
    rw [List.length_cons]
    exact ⟨hpures, by omega⟩
  | pure _ _ _ ih =>
    obtain ⟨hpures, hunits⟩ := ih
    dsimp only at hpures hunits
    rw [List.length_cons]
    exact ⟨by omega, hunits⟩

/-- The forced literals are assigned one after another. -/
theorem Forces.toList_eq (path : s.Forces f pures units t) :
    t.current.model.toList = s.current.model.toList ++ (pures ++ units) := by
  induction path with
  | done => simp
  | unit _ followed _ ih => rw [ih, (Branch.of_follow_eq_ok followed).2]; simp
  | pure _ followed _ ih => rw [ih, (Branch.of_follow_eq_ok followed).2]; simp

theorem Forces.run_eq (path : s.Forces f pures units t) : s.run f = t.run f := by
  induction path with
  | done => rfl
  | unit due followed _ ih => rw [run_of_next (step_of_unit due followed), ih]
  | pure due followed _ ih => rw [run_of_next (step_of_pure due followed), ih]

theorem Forces.states_subset (path : s.Forces f pures units t) : t.states f ⊆ s.states f := by
  induction path with
  | done => exact List.Subset.refl _
  | unit due followed _ ih =>
    rw [states_of_next (step_of_unit due followed)]
    exact List.subset_cons_of_subset _ ih
  | pure due followed _ ih =>
    rw [states_of_next (step_of_pure due followed)]
    exact List.subset_cons_of_subset _ ih

/-- The forced literals are told in their order, and then what comes after them. -/
theorem Forces.events_eq (path : s.Forces f pures units t) :
    (s.states f).filterMap (event? f) =
      pures.map Event.pure ++ units.map Event.unit ++ (t.states f).filterMap (event? f) := by
  induction path with
  | done => rfl
  | unit due followed _ ih =>
    rw [states_of_next (step_of_unit due followed), List.filterMap_cons_some (event?_of_unit due),
      ih]
    rfl
  | pure due followed _ ih =>
    rw [states_of_next (step_of_pure due followed), List.filterMap_cons_some (event?_of_pure due),
      ih]
    rfl

/-- On its way a search decides nothing and has assigned the first of the forced literals. -/
theorem Forces.mem_states (path : s.Forces f pures units t) {r : Search} (hr : r ∈ s.states f) :
    r ∈ t.states f ∨ r.counters.decisions = s.counters.decisions ∧ r.pending = s.pending ∧
      r.current.model.toList <+: s.current.model.toList ++ (pures ++ units) := by
  induction path with
  | done => exact Or.inl hr
  | unit due followed _ ih =>
    rw [states_of_next (step_of_unit due followed)] at hr
    rcases List.mem_cons.mp hr with rfl | hr
    · exact Or.inr ⟨rfl, rfl, List.prefix_append _ _⟩
    · rcases ih hr with last | ⟨hdecisions, hpending, hprefix⟩
      · exact Or.inl last
      · rw [(Branch.of_follow_eq_ok followed).2] at hprefix
        exact Or.inr ⟨hdecisions, hpending, by simpa using hprefix⟩
  | pure due followed _ ih =>
    rw [states_of_next (step_of_pure due followed)] at hr
    rcases List.mem_cons.mp hr with rfl | hr
    · exact Or.inr ⟨rfl, rfl, List.prefix_append _ _⟩
    · rcases ih hr with last | ⟨hdecisions, hpending, hprefix⟩
      · exact Or.inl last
      · rw [(Branch.of_follow_eq_ok followed).2] at hprefix
        exact Or.inr ⟨hdecisions, hpending, by simpa using hprefix⟩

end Search

section Declared

variable {f : Formula} {symbols : List Symbol} (distinct : symbols.Nodup)
  (declared : ∀ c ∈ f.clauses, ∀ l ∈ c.literals, l.symbol ∈ symbols)

include distinct declared

/-- Every search has such a way, because each forced literal can be followed. -/
theorem Search.exists_forces (s : Search) (h : s.current.Splits symbols) :
    ∃ pures units t, s.Forces f pures units t ∧ t.current.Splits symbols := by
  have due := s.current.due_move f
  generalize hmove : s.current.move f = move at due
  cases due with
  | succeed satisfied =>
    refine ⟨[], [], s, .done fun undecided => ?_, h⟩
    rw [undecided.unsatisfied] at satisfied
    cases satisfied
  | conflict _ falsified =>
    refine ⟨[], [], s, .done fun undecided => ?_, h⟩
    rw [undecided.unfalsified] at falsified
    cases falsified
  | @pure l undecided first =>
    have hopen := (spec_of_firstPure? first).2.2
    obtain ⟨d, followed⟩ := h.exists_follow distinct hopen
    obtain ⟨pures, units, t, path, splits⟩ := Search.exists_forces
      ⟨d, s.pending, { s.counters with pureLiterals := s.counters.pureLiterals + 1 }⟩
      (h.of_follow hopen followed)
    exact ⟨l :: pures, units, t, .pure hmove followed path, splits⟩
  | @unit l undecided noPure first =>
    have hopen := h.unit_open declared undecided first
    obtain ⟨d, followed⟩ := h.exists_follow distinct hopen
    obtain ⟨pures, units, t, path, splits⟩ := Search.exists_forces
      ⟨d, s.pending, { s.counters with propagations := s.counters.propagations + 1 }⟩
      (h.of_follow hopen followed)
    -- No symbol was pure before the unit literal was followed, so none is afterwards.
    obtain rfl := path.pures_eq_nil (Branch.noPure_follow followed noPure)
    exact ⟨[], l :: units, t, .unit hmove followed path, splits⟩
  | exhausted _ noPure noUnit _ => exact ⟨[], [], s, .done fun _ => ⟨noPure, noUnit⟩, h⟩
  | decide _ noPure noUnit _ => exact ⟨[], [], s, .done fun _ => ⟨noPure, noUnit⟩, h⟩
termination_by s.weight f
decreasing_by
  · exact Search.weight_step (Search.step_of_pure hmove followed)
  · exact Search.weight_step (Search.step_of_unit hmove followed)

end Declared

/-! ## Decisions behind the forced literals -/

/-- Behind given literals a branch has assigned the first of the other symbols, in their order, and
the rest of them are open. -/
def Branch.InOrderBehind (forced : List Literal) (symbols : List Symbol) (b : Branch) : Prop :=
  ∃ decided : List Literal, b.model.toList = forced ++ decided ∧
    decided.map Literal.symbol ++ b.remaining =
      symbols.filter fun s => s ∉ forced.map Literal.symbol

/-- A branch on which nothing is forced any more, behind the given literals. -/
structure Branch.Behind (f : Formula) (forced : List Literal) (symbols : List Symbol) (b : Branch) :
    Prop where
  splits : b.Splits symbols
  unforced : b.Unforced f
  inOrder : b.InOrderBehind forced symbols

/-- A branch has decided nothing behind the literals that it has. -/
theorem Branch.Splits.inOrderBehind {b : Branch} {symbols : List Symbol} (h : b.Splits symbols)
    (distinct : symbols.Nodup) : b.InOrderBehind b.model.toList symbols :=
  ⟨[], by simp, h.remaining_eq_filter distinct⟩

section Behind

variable {f : Formula} {forced : List Literal} {symbols : List Symbol} {b : Branch}

/-- To decide the first open symbol continues the order. -/
theorem Branch.InOrderBehind.follow {s : Symbol} {rest : List Symbol} {value : Bool} {d : Branch}
    (h : b.InOrderBehind forced symbols) (first : b.remaining = s :: rest)
    (followed : b.follow ⟨s, value⟩ = .ok d) : d.InOrderBehind forced symbols := by
  obtain ⟨decided, hmodel, horder⟩ := h
  obtain ⟨hremaining, hlist⟩ := of_follow_eq_ok followed
  refine ⟨decided ++ [⟨s, value⟩], ?_, ?_⟩
  · rw [hlist, hmodel, List.append_assoc]
  · rw [hremaining, first, List.erase_cons_head, ← horder, first]
    simp

/-- On such a branch only a conflict or a decision expands, and its children are such branches. -/
theorem Branch.Behind.expand {children : List Branch} {work : Counters}
    (h : b.Behind f forced symbols) (hexp : b.Expands f children work) :
    (∀ d ∈ children, d.Behind f forced symbols) ∧ work.pureLiterals = 0 ∧
      work.propagations = 0 := by
  have splits := hexp.splits h.splits
  rcases h.unforced.expands_cases hexp with
    ⟨rfl, rfl, -⟩ | ⟨s, rest, high, low, rfl, rfl, settled, first, followedHigh, followedLow⟩
  · exact ⟨by simp, rfl, rfl⟩
  · have hhigh : high.Behind f forced symbols :=
      ⟨splits high (by simp), (settled.follow followedHigh).unforced,
        h.inOrder.follow first followedHigh⟩
    have hlow : low.Behind f forced symbols :=
      ⟨splits low (by simp), (settled.follow followedLow).unforced,
        h.inOrder.follow first followedLow⟩
    exact ⟨by simpa using ⟨hhigh, hlow⟩, rfl, rfl⟩

end Behind

/-- All branches stand behind the forced literals, which are counted. -/
structure Deciding (f : Formula) (pures units : List Literal) (symbols : List Symbol)
    (branches : List Branch) (counters : Counters) : Prop where
  behind : ∀ b ∈ branches, b.Behind f (pures ++ units) symbols
  pures_counted : counters.pureLiterals = pures.length
  units_counted : counters.propagations = units.length

theorem Deciding.expand {f : Formula} {pures units : List Literal} {symbols : List Symbol}
    {b : Branch} {rest children : List Branch} {counters work : Counters}
    (h : Deciding f pures units symbols (b :: rest) counters) (hexp : b.Expands f children work) :
    Deciding f pures units symbols (children ++ rest) (counters + work) := by
  obtain ⟨hchildren, hpures, hunits⟩ := (h.behind b List.mem_cons_self).expand hexp
  have hcounted : (counters + work).pureLiterals = counters.pureLiterals ∧
      (counters + work).propagations = counters.propagations := by
    change counters.pureLiterals + work.pureLiterals = _ ∧
      counters.propagations + work.propagations = _
    rw [hpures, hunits]
    exact ⟨rfl, rfl⟩
  constructor
  · rw [List.forall_mem_append]
    exact ⟨hchildren, fun d hd => h.behind d (List.mem_cons_of_mem b hd)⟩
  · rw [hcounted.1]
    exact h.pures_counted
  · rw [hcounted.2]
    exact h.units_counted

section Declared

variable {f : Formula} {symbols : List Symbol} (distinct : symbols.Nodup)
  (declared : ∀ c ∈ f.clauses, ∀ l ∈ c.literals, l.symbol ∈ symbols)

include distinct declared

/-- A search over given symbols first follows forced literals and then only decides. -/
theorem Search.exists_phases : ∃ pures units t,
    (Search.start symbols).Forces f pures units t ∧ t.pending = [] ∧
      t.current.model.toList = pures ++ units ∧
      Deciding f pures units symbols (t.current :: t.pending) t.counters := by
  obtain ⟨pures, units, t, path, splits⟩ :=
    (Search.start symbols).exists_forces distinct declared (Branch.splits_start symbols)
  have hlist : t.current.model.toList = pures ++ units := path.toList_eq
  have hpending : t.pending = [] := path.pending_eq
  have hbehind : t.current.Behind f (pures ++ units) symbols :=
    ⟨splits, path.unforced, hlist ▸ splits.inOrderBehind distinct⟩
  obtain ⟨hpures, hunits⟩ := path.counted
  refine ⟨pures, units, t, path, hpending, hlist, ?_, ?_, ?_⟩
  · rw [hpending]
    simpa using hbehind
  · simpa [Search.start] using hpures
  · simpa [Search.start] using hunits

end Declared

end Backtrack

/-- In every run of backtracking the forced literals come first: pure ones, then those of unit
clauses, and none of either kind once a symbol has been decided. All branches share them. Behind
them a branch has decided the first of the other symbols in the order of the list, and a model gives
those that are left the value true. The counters tell how many literals were forced. -/
theorem backtracking_forces_first {G : Type} [DrawSource G] (cnf : Cnf) (symbols : List Symbol)
    (distinct : symbols.Nodup) (declared : ∀ c ∈ cnf, ∀ l ∈ c.literals, l.symbol ∈ symbols)
    (counters : Counters) :
    ∃ (pures units : List Literal) (answer : Answer) (work : Counters),
      (Solver.backtracking counters : Solver G).solve cnf symbols =
          .ok (answer, .backtracking work) ∧
        (∀ l ∈ pures, l ∈ Cnf.literals cnf ∧ l.opposite ∉ Cnf.literals cnf) ∧
        (∀ l ∈ units, ∃ c ∈ cnf, c.literals = [l]) ∧
        work.pureLiterals = pures.length ∧ work.propagations = units.length ∧
        pures.length + units.length ≤ symbols.length ∧
        (∃ later, Backtrack.events cnf symbols =
            pures.map .pure ++ units.map .unit ++ later ∧
          ∀ l, Backtrack.Event.pure l ∉ later ∧ Backtrack.Event.unit l ∉ later) ∧
        (∀ s ∈ (Backtrack.Search.start symbols).states (.ofCnf cnf),
          (s.counters.decisions = 0 ∧ s.pending = [] ∧
              s.current.model.toList <+: pures ++ units) ∨
            ∀ b ∈ s.current :: s.pending, b.InOrderBehind (pures ++ units) symbols) ∧
        ∀ model, answer = .ok model →
          ∃ s ∈ (Backtrack.Search.start symbols).states (.ofCnf cnf),
            s.current.InOrderBehind (pures ++ units) symbols ∧
              model.toList = s.current.model.toList ++ s.current.remaining.map (⟨·, true⟩) := by
  obtain ⟨pures, units, t, path, -, hlist, deciding⟩ :=
    Backtrack.Search.exists_phases (f := .ofCnf cnf) distinct declared
  obtain ⟨hstates, r, hr, answer, work, hrun, ends⟩ :=
    Backtrack.Search.run_of_frontier (P := Backtrack.Deciding (.ofCnf cnf) pures units symbols)
      distinct declared (fun b _ _ h => (h.behind b List.mem_cons_self).splits)
      (fun _ _ _ _ _ h hexp => h.expand hexp) t deciding
  have hcounted : work.pureLiterals = pures.length ∧ work.propagations = units.length := by
    cases ends with
    | model => exact ⟨(hstates r hr).pures_counted, (hstates r hr).units_counted⟩
    | exhausted left => exact ⟨left.pures_counted, left.units_counted⟩
  have hbehind := deciding.behind t.current List.mem_cons_self
  refine ⟨pures, units, answer, work, ?_, path.pure_of_mem, path.unit_of_mem, hcounted.1, hcounted.2,
    ?_, ?_, ?_, ?_⟩
  · apply Solver.solve_backtracking declared
    rw [Backtrack.search, path.run_eq, hrun]
  · have hlength := hbehind.splits.partition.length_eq
    simp only [Assignment.symbols, hlist, List.length_append, List.length_map] at hlength
    omega
  · refine ⟨_, path.events_eq, fun l => ⟨fun hl => ?_, fun hl => ?_⟩⟩
    · obtain ⟨q, hq, told⟩ := List.mem_filterMap.mp hl
      have unforced := ((hstates q hq).behind q.current List.mem_cons_self).unforced
      exact (unforced.event l).1 told
    · obtain ⟨q, hq, told⟩ := List.mem_filterMap.mp hl
      have unforced := ((hstates q hq).behind q.current List.mem_cons_self).unforced
      exact (unforced.event l).2 told
  · intro s hs
    rcases path.mem_states hs with later | early
    · exact Or.inr fun b hb => ((hstates s later).behind b hb).inOrder
    · exact Or.inl early
  · rintro model rfl
    cases ends with
    | model satisfied completed =>
      have hlast := (hstates r hr).behind r.current List.mem_cons_self
      obtain ⟨m, hm, hcomplete⟩ := hlast.splits.exists_complete distinct
      obtain rfl : m = model := Except.ok.inj (hm.symm.trans completed)
      exact ⟨r, path.states_subset hr, hlast.inOrder, hcomplete⟩

/-- Clauses of which one literal is pure, one a unit clause, and two have to be decided. -/
def threeKinds : Cnf :=
  [⟨[⟨"p", true⟩, ⟨"a", true⟩], List.cons_ne_nil _ _⟩, ⟨[⟨"u", true⟩], List.cons_ne_nil _ _⟩,
    ⟨[⟨"u", false⟩, ⟨"a", true⟩, ⟨"b", true⟩], List.cons_ne_nil _ _⟩,
    ⟨[⟨"a", false⟩, ⟨"b", false⟩], List.cons_ne_nil _ _⟩]

/-- The run on these clauses falls into phases. -/
theorem backtracking_forces_first_threeKinds :
    ["a", "b", "u", "p"].Nodup ∧
      (∀ c ∈ threeKinds, ∀ l ∈ c.literals, l.symbol ∈ ["a", "b", "u", "p"]) ∧
      ∃ (pures units : List Literal) (answer : Answer) (work : Counters),
        (Solver.backtracking {} : Solver Generator).solve threeKinds ["a", "b", "u", "p"] =
            .ok (answer, .backtracking work) ∧
          (∀ l ∈ pures, l ∈ Cnf.literals threeKinds ∧ l.opposite ∉ Cnf.literals threeKinds) ∧
          (∀ l ∈ units, ∃ c ∈ threeKinds, c.literals = [l]) ∧
          work.pureLiterals = pures.length ∧ work.propagations = units.length ∧
          ∃ later, Backtrack.events threeKinds ["a", "b", "u", "p"] =
              pures.map .pure ++ units.map .unit ++ later ∧
            ∀ l, Backtrack.Event.pure l ∉ later ∧ Backtrack.Event.unit l ∉ later := by
  have distinct : ["a", "b", "u", "p"].Nodup := by decide
  have declared : ∀ c ∈ threeKinds, ∀ l ∈ c.literals, l.symbol ∈ ["a", "b", "u", "p"] := by decide
  obtain ⟨pures, units, answer, work, hsolve, hpure, hunit, hpures, hunits, -, told, -, -⟩ :=
    backtracking_forces_first (G := Generator) threeKinds ["a", "b", "u", "p"] distinct declared {}
  exact ⟨distinct, declared, pures, units, answer, work, hsolve, hpure, hunit, hpures, hunits, told⟩

end CnfSearch

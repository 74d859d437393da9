import CnfSearch.Proofs.Backtrack.Phases
import CnfSearch.Proofs.Model.Values
import CnfSearch.Random.Generator
import Mathlib.Data.List.Basic

set_option autoImplicit false

/-!
# The model that backtracking finds is the first one

Valuations are ordered by the first symbol of the list on which they differ: the one that makes it
true comes first (`Valuation.Before`). A decision tries the value true first and takes the first
open symbol, so behind the forced literals the branches that are left stand in this order, and every
model that agrees with the forced literals extends one of them (`Sweep`). The branch that is
completed is the first one, and its open symbols get the value true; no model above the forced
literals comes before what it is completed to: `backtracking_first_model`.
-/

namespace CnfSearch

/-! ## The order of valuations -/

/-- At the first symbol on which two valuations differ, the first one is true. -/
def Valuation.Before (symbols : List Symbol) (v w : Valuation) : Prop :=
  ∃ before s after, symbols = before ++ s :: after ∧ (∀ t ∈ before, v t = w t) ∧
    v s = true ∧ w s = false

/-- Valuations that differ on a list differ on a first symbol of it. -/
theorem Valuation.exists_first_difference {symbols : List Symbol} {v w : Valuation}
    (differ : ∃ s ∈ symbols, v s ≠ w s) :
    ∃ before s after, symbols = before ++ s :: after ∧ (∀ t ∈ before, v t = w t) ∧ v s ≠ w s := by
  induction symbols with
  | nil =>
    obtain ⟨s, hs, -⟩ := differ
    cases hs
  | cons x rest ih =>
    by_cases hx : v x = w x
    · obtain ⟨s, hs, hne⟩ := differ
      have hrest : s ∈ rest := by
        rcases List.mem_cons.mp hs with rfl | hrest
        · exact absurd hx hne
        · exact hrest
      obtain ⟨before, s, after, rfl, same, hne⟩ := ih ⟨s, hrest, hne⟩
      refine ⟨x :: before, s, after, rfl, ?_, hne⟩
      intro t ht
      rcases List.mem_cons.mp ht with rfl | ht
      · exact hx
      · exact same t ht
    · exact ⟨[], x, rest, rfl, by simp, hx⟩

/-- Two extensions of an assignment agree on its symbols. -/
theorem Valuation.Extends.eq {v w : Valuation} {a : Assignment} (hv : v.Extends a)
    (hw : w.Extends a) {s : Symbol} (hs : s ∈ a.symbols) : v s = w s := by
  obtain ⟨l, hl, rfl⟩ := List.mem_map.mp hs
  have hvl := hv l hl
  have hwl := hw l hl
  rw [Literal.eval, beq_iff_eq] at hvl hwl
  rw [hvl, hwl]

section Models

variable {cnf : Cnf} {symbols : List Symbol} {m other : Assignment}

/-- A model assigns exactly the symbols of the list, so its valuation says what it assigns. -/
theorem Assignment.IsModel.value?_eq_some (h : m.IsModel cnf symbols) {s : Symbol}
    (hs : s ∈ symbols) : m.value? s = some (m.valuation s) :=
  value?_eq_some_valuation (h.assigns.mem_iff.mpr hs)

/-- Models that differ differ on a symbol of the list. -/
theorem Assignment.IsModel.exists_valuation_ne (hm : m.IsModel cnf symbols)
    (hother : other.IsModel cnf symbols) (differs : ∃ s, other.value? s ≠ m.value? s) :
    ∃ s ∈ symbols, m.valuation s ≠ other.valuation s := by
  obtain ⟨s, hne⟩ := differs
  by_cases hs : s ∈ symbols
  · refine ⟨s, hs, ?_⟩
    intro same
    rw [hm.value?_eq_some hs, hother.value?_eq_some hs, same] at hne
    exact hne rfl
  · have unassigned : ∀ {a : Assignment}, a.IsModel cnf symbols → a.value? s = none := by
      intro a ha
      apply value?_eq_none
      intro assigned
      exact hs (ha.assigns.mem_iff.mp assigned)
    rw [unassigned hm, unassigned hother] at hne
    exact absurd rfl hne

end Models

namespace Backtrack

/-! ## The branches that are left, in order -/

/-- Every valuation of one branch comes before every valuation of another. -/
def Branch.Before (symbols : List Symbol) (b d : Branch) : Prop :=
  ∀ v w : Valuation, v.Extends b.model → w.Extends d.model → v.Before symbols w

theorem Branch.extends_of_follow {b d : Branch} {l : Literal} (followed : b.follow l = .ok d)
    {v : Valuation} (h : v.Extends d.model) : v.Extends b.model :=
  ((extends_follow_iff followed).mp h).1

/-- A decision puts the value true before the value false: what stands before the first open symbol
has a value on both sides. -/
theorem Branch.Splits.before_of_decide {b high low : Branch} {symbols rest : List Symbol}
    {s : Symbol} (h : b.Splits symbols) (distinct : symbols.Nodup) (first : b.remaining = s :: rest)
    (followedHigh : b.follow ⟨s, true⟩ = .ok high) (followedLow : b.follow ⟨s, false⟩ = .ok low) :
    high.Before symbols low := by
  intro v w hv hw
  obtain ⟨hvb, hvs⟩ := (extends_follow_iff followedHigh).mp hv
  obtain ⟨hwb, hws⟩ := (extends_follow_iff followedLow).mp hw
  have hopen := h.remaining_eq_filter distinct
  rw [first, eq_comm, List.filter_eq_cons_iff] at hopen
  obtain ⟨before, after, hsymbols, assigned, -, -⟩ := hopen
  refine ⟨before, s, after, hsymbols, ?_, ?_, ?_⟩
  · intro t ht
    have hassigned : t ∈ b.model.symbols := by simpa using assigned t ht
    exact hvb.eq hwb hassigned
  · simpa [Literal.eval] using hvs
  · simpa [Literal.eval] using hws

/-- Branches in order, of which one extends to each model that agrees with the forced literals. -/
structure Sweep (cnf : Cnf) (forced : List Literal) (symbols : List Symbol)
    (branches : List Branch) : Prop where
  covers : ∀ v : Valuation, Cnf.eval v cnf = true → (∀ l ∈ forced, l.eval v = true) →
    ∃ b ∈ branches, v.Extends b.model
  ordered : branches.Pairwise (Branch.Before symbols)

section Expand

variable {f : Formula} {forced : List Literal} {symbols : List Symbol} {b : Branch}
  {rest children : List Branch} {work : Counters}

/-- The models of a branch without forced literals are those of its children. -/
theorem Branch.Behind.exists_child (h : b.Behind f forced symbols)
    (hexp : b.Expands f children work) {v : Valuation} (hv : Cnf.eval v f.clauses = true)
    (hext : v.Extends b.model) : ∃ d ∈ children, v.Extends d.model := by
  rcases h.unforced.expands_cases hexp with
    ⟨-, -, falsified⟩ | ⟨s, _, high, low, rfl, -, -, -, followedHigh, followedLow⟩
  · rw [Cnf.eval_of_anyFalsified hext falsified] at hv
    cases hv
  · cases hs : v s with
    | true =>
      have hlit : (Literal.mk s true).eval v = true := by simp [Literal.eval, hs]
      exact ⟨high, by simp, (extends_follow_iff followedHigh).mpr ⟨hext, hlit⟩⟩
    | false =>
      have hlit : (Literal.mk s false).eval v = true := by simp [Literal.eval, hs]
      exact ⟨low, by simp, (extends_follow_iff followedLow).mpr ⟨hext, hlit⟩⟩

/-- The children of a branch extend it and stand in order. -/
theorem Branch.Expands.ordered (hexp : b.Expands f children work) (h : b.Splits symbols)
    (distinct : symbols.Nodup) : (∀ d ∈ children, ∀ v : Valuation, v.Extends d.model →
      v.Extends b.model) ∧ children.Pairwise (Branch.Before symbols) := by
  cases hexp with
  | conflict => simp
  | pure _ _ followed => simpa using fun v => extends_of_follow followed
  | unit _ _ _ _ followed => simpa using fun v => extends_of_follow followed
  | decide _ _ _ first followedHigh followedLow =>
    constructor
    · simpa using ⟨fun v => extends_of_follow followedHigh, fun v => extends_of_follow followedLow⟩
    · simpa using h.before_of_decide distinct first followedHigh followedLow

theorem Sweep.expand (h : Sweep f.clauses forced symbols (b :: rest))
    (behind : b.Behind f forced symbols) (distinct : symbols.Nodup)
    (hexp : b.Expands f children work) : Sweep f.clauses forced symbols (children ++ rest) where
  covers := by
    intro v hv hforced
    obtain ⟨d, hd, hext⟩ := h.covers v hv hforced
    rcases List.mem_cons.mp hd with rfl | hrest
    · obtain ⟨e, he, hext'⟩ := behind.exists_child hexp hv hext
      exact ⟨e, List.mem_append_left rest he, hext'⟩
    · exact ⟨d, List.mem_append_right children hrest, hext⟩
  ordered := by
    obtain ⟨below, ordered⟩ := hexp.ordered behind.splits distinct
    obtain ⟨hfirst, hrest⟩ := List.pairwise_cons.mp h.ordered
    rw [List.pairwise_append]
    refine ⟨ordered, hrest, ?_⟩
    -- A valuation of a child is one of the branch that it replaces.
    intro d hd e he v w hv hw
    exact hfirst e he v w (below d hd v hv) hw

/-- The completion of the first branch comes before every other model that agrees with the forced
literals. -/
theorem Sweep.before_of_complete {model : Assignment} (h : Sweep f.clauses forced symbols (b :: rest))
    (splits : b.Splits symbols)
    (hmodel : model.toList = b.model.toList ++ b.remaining.map fun s => ⟨s, true⟩) {w : Valuation}
    (hw : Cnf.eval w f.clauses = true) (hforced : ∀ l ∈ forced, l.eval w = true)
    (differ : ∃ s ∈ symbols, model.valuation s ≠ w s) : model.valuation.Before symbols w := by
  have hext : model.valuation.Extends b.model := by
    intro l hl
    apply model.extends_valuation l
    rw [hmodel]
    exact List.mem_append_left _ hl
  obtain ⟨d, hd, hwd⟩ := h.covers w hw hforced
  rcases List.mem_cons.mp hd with rfl | hrest
  · -- On the completed branch itself only open symbols can differ, and the completion is true there.
    obtain ⟨before, s, after, hsymbols, same, hne⟩ := Valuation.exists_first_difference differ
    have hopen : s ∈ d.remaining := by
      apply splits.mem_remaining (by simp [hsymbols])
      intro assigned
      exact hne (hext.eq hwd assigned)
    have htrue : model.valuation s = true := by
      have held : (⟨s, true⟩ : Literal) ∈ model.toList := by
        rw [hmodel]
        exact List.mem_append_right _ (List.mem_map_of_mem hopen)
      simpa [Literal.eval] using model.extends_valuation _ held
    refine ⟨before, s, after, hsymbols, same, htrue, ?_⟩
    rw [htrue] at hne
    cases hws : w s with
    | true => exact absurd hws.symm hne
    | false => rfl
  · exact (List.pairwise_cons.mp h.ordered).1 d hrest _ w hext hwd

end Expand

/-- The model of a search comes before every other one that agrees with its forced literals. -/
theorem search_before {cnf : Cnf} {symbols : List Symbol} (distinct : symbols.Nodup)
    (declared : ∀ c ∈ cnf, ∀ l ∈ c.literals, l.symbol ∈ symbols) {model : Assignment}
    {work : Counters} (found : search cnf symbols = .ok (.ok model, work)) {w : Valuation}
    (hw : Cnf.eval w cnf = true)
    (agrees : ∀ l ∈ model.toList.take (work.pureLiterals + work.propagations), l.eval w = true)
    (differ : ∃ s ∈ symbols, model.valuation s ≠ w s) : model.valuation.Before symbols w := by
  obtain ⟨pures, units, t, path, hpending, hlist, deciding⟩ :=
    Search.exists_phases (f := .ofCnf cnf) distinct declared
  have sweep : Sweep cnf (pures ++ units) symbols (t.current :: t.pending) := by
    rw [hpending]
    refine ⟨fun v _ hforced => ⟨_, List.mem_singleton_self _, ?_⟩, List.pairwise_singleton _ _⟩
    rw [Valuation.Extends, hlist]
    exact hforced
  obtain ⟨hstates, r, hr, answer, counters, hrun, ends⟩ :=
    Search.run_of_frontier (P := fun branches counters =>
        Deciding (.ofCnf cnf) pures units symbols branches counters ∧
          Sweep cnf (pures ++ units) symbols branches)
      distinct declared (fun b _ _ h => (h.1.behind b List.mem_cons_self).splits)
      (fun b _ _ _ _ h hexp => ⟨h.1.expand hexp,
        h.2.expand (h.1.behind b List.mem_cons_self) distinct hexp⟩) t ⟨deciding, sweep⟩
  rw [search, path.run_eq, hrun, Except.ok.injEq, Prod.mk.injEq] at found
  obtain ⟨rfl, rfl⟩ := found
  cases ends with
  | model satisfied completed =>
    obtain ⟨hdeciding, hsweep⟩ := hstates r hr
    have hlast := hdeciding.behind r.current List.mem_cons_self
    obtain ⟨m, hm, hmodel⟩ := hlast.splits.exists_complete distinct
    obtain rfl : m = model := Except.ok.inj (hm.symm.trans completed)
    -- The first literals of the model, as many as were forced, are the forced ones.
    have htake : m.toList.take (r.counters.pureLiterals + r.counters.propagations) =
        pures ++ units := by
      obtain ⟨decided, hdecided, -⟩ := hlast.inOrder
      rw [hdeciding.pures_counted, hdeciding.units_counted, ← List.length_append, hmodel, hdecided,
        List.append_assoc, List.take_left]
    rw [htake] at agrees
    exact hsweep.before_of_complete (f := .ofCnf cnf) hlast.splits hmodel hw agrees differ

end Backtrack

/-- The model that backtracking finds is the first one above its forced literals: at the first
symbol of the list on which another model that has these literals differs from it, it has the value
true. -/
theorem backtracking_first_model {G : Type} [DrawSource G] (cnf : Cnf) (symbols : List Symbol)
    (distinct : symbols.Nodup) (declared : ∀ c ∈ cnf, ∀ l ∈ c.literals, l.symbol ∈ symbols)
    (counters work : Counters) (model : Assignment)
    (found : (Solver.backtracking counters : Solver G).solve cnf symbols =
      .ok (.ok model, .backtracking work))
    (other : Assignment) (assigns : (other.toList.map Literal.symbol).Perm symbols)
    (satisfies : ∀ c ∈ cnf, ∃ l ∈ c.literals, other.holds l = true)
    (agrees : ∀ l ∈ model.toList.take (work.pureLiterals + work.propagations),
      other.holds l = true)
    (differs : ∃ s, other.value? s ≠ model.value? s) :
    ∃ before s after, symbols = before ++ s :: after ∧
      (∀ t ∈ before, other.value? t = model.value? t) ∧
        model.value? s = some true ∧ other.value? s = some false := by
  obtain ⟨answer, work', hsearch, decides⟩ := Backtrack.search_decides distinct declared
  rw [Solver.solve_backtracking declared hsearch, Except.ok.injEq, Prod.mk.injEq] at found
  obtain ⟨rfl, hwork⟩ := found
  obtain rfl : work' = work := by
    cases hwork
    rfl
  have isModel : other.IsModel cnf symbols :=
    ⟨assigns, by simpa only [Assignment.holds_iff] using satisfies⟩
  have hdiffer := decides.exists_valuation_ne isModel differs
  have htrue : Cnf.eval other.valuation cnf = true :=
    Cnf.eval_of_allSatisfied other.extends_valuation (Cnf.allSatisfied_iff.mpr isModel.satisfies)
  have hagrees : ∀ l ∈ model.toList.take (work'.pureLiterals + work'.propagations),
      l.eval other.valuation = true := fun l hl =>
    other.extends_valuation l ((other.holds_iff l).mp (agrees l hl))
  obtain ⟨before, s, after, rfl, same, htrue', hfalse⟩ :=
    Backtrack.search_before distinct declared hsearch htrue hagrees hdiffer
  refine ⟨before, s, after, rfl, ?_, ?_, ?_⟩
  · intro t ht
    have hmem : t ∈ before ++ s :: after := List.mem_append_left _ ht
    rw [isModel.value?_eq_some hmem, decides.value?_eq_some hmem, same t ht]
  · rw [decides.value?_eq_some (by simp), htrue']
  · rw [isModel.value?_eq_some (by simp), hfalse]

/-- The forced literals of `threeKinds`: a pure one, then a unit. -/
def threeKindsForced : Assignment :=
  (Assignment.extend .empty ⟨"p", true⟩ (by cbv)).extend ⟨"u", true⟩ (by cbv)

/-- The forced literals and a value of the first symbol. -/
def threeKindsSide (value : Bool) : Assignment := threeKindsForced.extend ⟨"a", value⟩ (by cbv)

/-- The models of `threeKinds`. -/
def threeKindsModel (value : Bool) : Assignment :=
  (threeKindsSide value).extend ⟨"b", !value⟩ (by cases value <;> cbv)

/-- The search on `threeKinds` forces two literals and takes back its second decision. -/
theorem Backtrack.search_threeKinds : search threeKinds ["a", "b", "u", "p"] =
    .ok (.ok (threeKindsModel true),
      { decisions := 2, propagations := 1, pureLiterals := 1, conflicts := 1 }) := by
  have last : Search.step (.ofCnf threeKinds) ⟨⟨[], threeKindsModel true⟩,
      [⟨["b"], threeKindsSide false⟩],
      { decisions := 2, propagations := 1, pureLiterals := 1, conflicts := 1 }⟩ =
        .ok (.finish (.ok (threeKindsModel true))
          { decisions := 2, propagations := 1, pureLiterals := 1, conflicts := 1 }) := by cbv
  rw [search,
    Search.run_of_next (t := ⟨⟨["a", "b", "u"], .extend .empty ⟨"p", true⟩ (by cbv)⟩, [],
      { pureLiterals := 1 }⟩) (by cbv),
    Search.run_of_next (t := ⟨⟨["a", "b"], threeKindsForced⟩, [],
      { propagations := 1, pureLiterals := 1 }⟩) (by cbv),
    Search.run_of_next (t := ⟨⟨["b"], threeKindsSide true⟩, [⟨["b"], threeKindsSide false⟩],
      { decisions := 1, propagations := 1, pureLiterals := 1 }⟩) (by cbv),
    Search.run_of_next (t := ⟨⟨[], (threeKindsSide true).extend ⟨"b", true⟩ (by cbv)⟩,
      [⟨[], threeKindsModel true⟩, ⟨["b"], threeKindsSide false⟩],
      { decisions := 2, propagations := 1, pureLiterals := 1 }⟩) (by cbv),
    Search.run_of_next (t := ⟨⟨[], threeKindsModel true⟩, [⟨["b"], threeKindsSide false⟩],
      { decisions := 2, propagations := 1, pureLiterals := 1, conflicts := 1 }⟩) (by cbv),
    Search.run_of_finish last]

/-- Both models of `threeKinds` contain the two forced literals; the found one makes the first symbol
true. -/
theorem backtracking_first_model_threeKinds :
    (Solver.backtracking {} : Solver Generator).solve threeKinds ["a", "b", "u", "p"] =
        .ok (.ok (threeKindsModel true), .backtracking
          { decisions := 2, propagations := 1, pureLiterals := 1, conflicts := 1 }) ∧
      (threeKindsModel true).toList.take (1 + 1) = [⟨"p", true⟩, ⟨"u", true⟩] ∧
      (∀ l ∈ (threeKindsModel true).toList.take (1 + 1), (threeKindsModel false).holds l = true) ∧
      (∀ c ∈ threeKinds, ∃ l ∈ c.literals, (threeKindsModel false).holds l = true) ∧
      ∃ before s after, ["a", "b", "u", "p"] = before ++ s :: after ∧
        (∀ t ∈ before, (threeKindsModel false).value? t = (threeKindsModel true).value? t) ∧
          (threeKindsModel true).value? s = some true ∧
            (threeKindsModel false).value? s = some false := by
  have distinct : ["a", "b", "u", "p"].Nodup := by decide
  have declared : ∀ c ∈ threeKinds, ∀ l ∈ c.literals, l.symbol ∈ ["a", "b", "u", "p"] := by decide
  have found : (Solver.backtracking {} : Solver Generator).solve threeKinds ["a", "b", "u", "p"] =
      .ok (.ok (threeKindsModel true), .backtracking
        { decisions := 2, propagations := 1, pureLiterals := 1, conflicts := 1 }) :=
    Solver.solve_backtracking declared Backtrack.search_threeKinds
  have forced : (threeKindsModel true).toList.take (1 + 1) = [⟨"p", true⟩, ⟨"u", true⟩] := by decide
  have agrees : ∀ l ∈ (threeKindsModel true).toList.take (1 + 1),
      (threeKindsModel false).holds l = true := by
    simp only [Assignment.holds_iff]
    decide
  have satisfies : ∀ c ∈ threeKinds, ∃ l ∈ c.literals, (threeKindsModel false).holds l = true := by
    simp only [Assignment.holds_iff]
    decide
  have assigns : ((threeKindsModel false).toList.map Literal.symbol).Perm ["a", "b", "u", "p"] := by
    decide
  have low : (threeKindsModel false).value? "a" = some false := by cbv
  have high : (threeKindsModel true).value? "a" = some true := by cbv
  have differs : ∃ s, (threeKindsModel false).value? s ≠ (threeKindsModel true).value? s :=
    ⟨"a", by simp [low, high]⟩
  exact ⟨found, forced, agrees, satisfies, backtracking_first_model threeKinds ["a", "b", "u", "p"]
    distinct declared {} _ _ found (threeKindsModel false) assigns satisfies agrees differs⟩

end CnfSearch

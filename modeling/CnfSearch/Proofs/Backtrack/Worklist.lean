import CnfSearch.Proofs.Backtrack.Decision
import CnfSearch.Proofs.Backtrack.Runs
import Mathlib.Data.List.Basic

set_option autoImplicit false

/-!
# The branches that are left divide the search space

Nothing is lost: the branches form a frontier, of which one extends to a model if there is any.
Nothing is searched twice: two branches that are left differ on a symbol that both have assigned
(`Branch.Apart`), because the sides of a decision do and a branch keeps what it has assigned. A
decision closes a symbol and leaves one branch waiting, so that the open symbols of a branch and the
branches that wait behind it are never more than all symbols (`Stacked`). `Divides` holds at every
iteration of a run: `backtracking_divides_search`.
-/

namespace CnfSearch

namespace Backtrack

/-- Some symbol has opposite values on two branches. -/
def Branch.Apart (b d : Branch) : Prop := ∃ l ∈ b.model.toList, l.opposite ∈ d.model.toList

/-- The open symbols of each branch and the branches behind it are together within a bound. -/
def Stacked (bound : Nat) : List Branch → Prop
  | [] => True
  | b :: behind => b.remaining.length + behind.length ≤ bound ∧ Stacked bound behind

section Follow

variable {b d : Branch} {l : Literal} (followed : b.follow l = .ok d)

include followed

/-- To follow a literal of an open symbol leaves one open symbol less. -/
theorem Branch.length_remaining_of_follow (hopen : l.symbol ∈ b.remaining) :
    d.remaining.length + 1 = b.remaining.length := by
  rw [(of_follow_eq_ok followed).1, List.length_erase_of_mem hopen]
  have positive := List.length_pos_of_mem hopen
  omega

theorem Branch.mem_toList_of_follow : l ∈ d.model.toList := by
  rw [(of_follow_eq_ok followed).2]
  simp

theorem Branch.toList_subset_of_follow : b.model.toList ⊆ d.model.toList := by
  rw [(of_follow_eq_ok followed).2]
  exact List.subset_append_left _ _

end Follow

/-! ## What an expansion does to the branches -/

section Expands

variable {f : Formula} {b : Branch} {children : List Branch} {work : Counters}
  (hexp : b.Expands f children work)

include hexp

/-- A child has one open symbol less than its parent. -/
theorem Branch.Expands.length_remaining :
    ∀ d ∈ children, d.remaining.length + 1 = b.remaining.length := by
  cases hexp with
  | conflict => simp
  | pure _ first followed =>
    simpa using length_remaining_of_follow followed (spec_of_firstPure? first).2.2
  | unit _ _ _ hopen followed => simpa using length_remaining_of_follow followed hopen
  | decide _ _ _ first followedHigh followedLow =>
    have high := length_remaining_of_follow followedHigh (by simp [first])
    have low := length_remaining_of_follow followedLow (by simp [first])
    simpa using ⟨high, low⟩

/-- A child keeps what its parent has assigned. -/
theorem Branch.Expands.toList_subset : ∀ d ∈ children, b.model.toList ⊆ d.model.toList := by
  cases hexp with
  | conflict => simp
  | pure _ _ followed => simpa using toList_subset_of_follow followed
  | unit _ _ _ _ followed => simpa using toList_subset_of_follow followed
  | decide _ _ _ _ followedHigh followedLow =>
    simpa using ⟨toList_subset_of_follow followedHigh, toList_subset_of_follow followedLow⟩

/-- The two sides of a decision differ on the decided symbol. -/
theorem Branch.Expands.apart : children.Pairwise Branch.Apart := by
  cases hexp with
  | conflict => exact List.Pairwise.nil
  | pure => exact List.pairwise_singleton _ _
  | unit => exact List.pairwise_singleton _ _
  | decide _ _ _ _ followedHigh followedLow =>
    rw [List.pairwise_pair]
    exact ⟨_, mem_toList_of_follow followedHigh, mem_toList_of_follow followedLow⟩

/-- An expansion closes a symbol for at most one branch more that waits. -/
theorem Branch.Expands.stacked {bound : Nat} {rest : List Branch}
    (h : Stacked bound (b :: rest)) : Stacked bound (children ++ rest) := by
  obtain ⟨room, behind⟩ := h
  have fewer := hexp.length_remaining
  have alone (d : Branch) (hd : d.remaining.length + 1 = b.remaining.length) :
      Stacked bound ([d] ++ rest) := by
    rw [List.singleton_append]
    exact ⟨by omega, behind⟩
  cases hexp with
  | conflict => exact behind
  | pure => exact alone _ (fewer _ List.mem_cons_self)
  | unit => exact alone _ (fewer _ List.mem_cons_self)
  | @decide _ _ high low =>
    have hhigh := fewer high (by simp)
    have hlow := fewer low (by simp)
    have hlength : (low :: rest).length = rest.length + 1 := rfl
    rw [List.cons_append, List.singleton_append]
    exact ⟨by omega, by omega, behind⟩

end Expands

/-! ## Runs -/

/-- Branches that lose and repeat no part of the search space. -/
structure Divides (cnf : Cnf) (symbols : List Symbol) (branches : List Branch) : Prop where
  frontier : Frontier cnf symbols branches
  apart : branches.Pairwise Branch.Apart
  stacked : Stacked symbols.length branches

theorem divides_start (cnf : Cnf) (symbols : List Symbol) :
    Divides cnf symbols [⟨symbols, .empty⟩] where
  frontier := frontier_start cnf symbols
  apart := List.pairwise_singleton _ _
  stacked := ⟨Nat.le_refl _, trivial⟩

/-- Replacing a branch by its children loses and repeats nothing. -/
theorem Divides.expand {f : Formula} {symbols : List Symbol} {b : Branch}
    {children rest : List Branch} {work : Counters} (h : Divides f.clauses symbols (b :: rest))
    (hexp : b.Expands f children work) : Divides f.clauses symbols (children ++ rest) where
  frontier := h.frontier.expand hexp
  apart := by
    obtain ⟨hfirst, hrest⟩ := List.pairwise_cons.mp h.apart
    rw [List.pairwise_append]
    refine ⟨hexp.apart, hrest, ?_⟩
    -- A child differs from every other branch where its parent did.
    intro d hd e he
    obtain ⟨l, hl, opposed⟩ := hfirst e he
    exact ⟨l, hexp.toList_subset d hd hl, opposed⟩
  stacked := hexp.stacked h.stacked

/-- The branches that are left divide the search space at every iteration. -/
theorem Search.divides_of_mem_states {f : Formula} {symbols : List Symbol}
    (distinct : symbols.Nodup) (declared : ∀ c ∈ f.clauses, ∀ l ∈ c.literals, l.symbol ∈ symbols)
    {s : Search} (reached : s ∈ (Search.start symbols).states f) :
    Divides f.clauses symbols (s.current :: s.pending) := by
  obtain ⟨hstates, -⟩ := Search.run_of_frontier
    (P := fun branches _ => Divides f.clauses symbols branches) distinct declared
    (fun b _ _ h => h.frontier.splits b List.mem_cons_self)
    (fun _ _ _ _ _ h hexp => h.expand hexp) (.start symbols) (divides_start _ symbols)
  exact hstates s reached

end Backtrack

/-- Backtracking visits states that follow one another by its steps, the last of which answers. At
every one of them each of the branches that are left has assigned some of the symbols and keeps the
others open, in their order; two of them give a symbol opposite values; if the clauses have a model,
one extends one of these branches; and no more alternatives wait than there are symbols. -/
theorem backtracking_divides_search {G : Type} [DrawSource G] (cnf : Cnf) (symbols : List Symbol)
    (distinct : symbols.Nodup) (declared : ∀ c ∈ cnf, ∀ l ∈ c.literals, l.symbol ∈ symbols)
    (counters : Counters) :
    ∃ visited last answer work,
      (Backtrack.Search.start symbols).states (.ofCnf cnf) = visited ∧
      visited.head? = some (Backtrack.Search.start symbols) ∧
      visited.IsChain (fun s t => s.step (.ofCnf cnf) = .ok (.next t)) ∧
      visited.getLast? = some last ∧ last.step (.ofCnf cnf) = .ok (.finish answer work) ∧
      (Solver.backtracking counters : Solver G).solve cnf symbols =
        .ok (answer, .backtracking work) ∧
      ∀ s ∈ visited,
        (∀ b ∈ s.current :: s.pending,
          (b.model.toList.map Literal.symbol ++ b.remaining).Nodup ∧
            (b.model.toList.map Literal.symbol ++ b.remaining).Perm symbols ∧
              b.remaining.Sublist symbols) ∧
        (s.current :: s.pending).Pairwise (fun b d => ∃ x value,
          b.model.value? x = some value ∧ d.model.value? x = some !value) ∧
        ((∃ v : Valuation, Cnf.eval v cnf = true) →
          ∃ b ∈ s.current :: s.pending, ∃ v : Valuation,
            Cnf.eval v cnf = true ∧ ∀ l ∈ b.model.toList, l.eval v = true) ∧
        s.pending.length ≤ symbols.length := by
  obtain ⟨answer, work, hsearch, -⟩ := Backtrack.search_decides distinct declared
  obtain ⟨first, chain, last, hlast, finishes⟩ := Backtrack.Search.states_of_run hsearch
  refine ⟨_, last, answer, work, rfl, first, chain, hlast, finishes,
    Solver.solve_backtracking declared hsearch, fun s reached => ?_⟩
  have divides : Backtrack.Divides cnf symbols (s.current :: s.pending) :=
    Backtrack.Search.divides_of_mem_states (f := .ofCnf cnf) distinct declared reached
  refine ⟨fun b hb => ?_, divides.apart.imp ?_, divides.frontier.covers, ?_⟩
  · have splits := divides.frontier.splits b hb
    exact ⟨splits.nodup distinct, splits.partition, splits.inOrder⟩
  · rintro b d ⟨l, hl, opposed⟩
    exact ⟨l.symbol, l.positive, Assignment.value?_of_mem hl, Assignment.value?_of_mem opposed⟩
  · have room := divides.stacked.1
    omega

/-- The first symbol of the exclusive or with a value. -/
def exclusiveOrSide (value : Bool) : Assignment := .extend .empty ⟨"a", value⟩ (by cbv)

/-- The models of the exclusive or. -/
def exclusiveOrModel (value : Bool) : Assignment :=
  (exclusiveOrSide value).extend ⟨"b", !value⟩ (by cases value <;> cbv)

/-- The exclusive or with its first symbol decided. -/
def exclusiveOrDecided : Backtrack.Search where
  current := ⟨["b"], exclusiveOrSide true⟩
  pending := [⟨["b"], exclusiveOrSide false⟩]
  counters := { decisions := 1 }

/-- The search on the exclusive or takes back its second decision. -/
theorem Backtrack.search_exclusiveOr : search exclusiveOr ["a", "b"] =
    .ok (.ok (exclusiveOrModel true), { decisions := 2, conflicts := 1 }) := by
  have last : Search.step (.ofCnf exclusiveOr) ⟨⟨[], exclusiveOrModel true⟩,
      [⟨["b"], exclusiveOrSide false⟩], { decisions := 2, conflicts := 1 }⟩ =
        .ok (.finish (.ok (exclusiveOrModel true)) { decisions := 2, conflicts := 1 }) := by cbv
  rw [search, Search.run_of_next (t := exclusiveOrDecided) (by cbv),
    Search.run_of_next (t := ⟨⟨[], (exclusiveOrSide true).extend ⟨"b", true⟩ (by cbv)⟩,
      [⟨[], exclusiveOrModel true⟩, ⟨["b"], exclusiveOrSide false⟩], { decisions := 2 }⟩) (by cbv),
    Search.run_of_next (t := ⟨⟨[], exclusiveOrModel true⟩, [⟨["b"], exclusiveOrSide false⟩],
      { decisions := 2, conflicts := 1 }⟩) (by cbv),
    Search.run_of_finish last]

/-- After the first decision on the exclusive or, two branches divide the search, whose last step
gives the model that makes the first symbol true. -/
theorem backtracking_divides_search_exclusiveOr :
    ["a", "b"].Nodup ∧ (∀ c ∈ exclusiveOr, ∀ l ∈ c.literals, l.symbol ∈ ["a", "b"]) ∧
      ∃ visited last, (Backtrack.Search.start ["a", "b"]).states (.ofCnf exclusiveOr) = visited ∧
        visited.getLast? = some last ∧
        last.step (.ofCnf exclusiveOr) =
          .ok (.finish (.ok (exclusiveOrModel true)) { decisions := 2, conflicts := 1 }) ∧
        exclusiveOrDecided ∈ visited ∧
        (exclusiveOrDecided.current :: exclusiveOrDecided.pending).Pairwise (fun b d =>
          ∃ x value, b.model.value? x = some value ∧ d.model.value? x = some !value) ∧
        ∃ b ∈ exclusiveOrDecided.current :: exclusiveOrDecided.pending, ∃ v : Valuation,
          Cnf.eval v exclusiveOr = true ∧ ∀ l ∈ b.model.toList, l.eval v = true := by
  have distinct : ["a", "b"].Nodup := by decide
  have declared : ∀ c ∈ exclusiveOr, ∀ l ∈ c.literals, l.symbol ∈ ["a", "b"] := by decide
  have satisfiable : ∃ v : Valuation, Cnf.eval v exclusiveOr = true :=
    ⟨fun s => s == "a", by decide⟩
  have found : (Solver.backtracking {} : Solver Generator).solve exclusiveOr ["a", "b"] =
      .ok (.ok (exclusiveOrModel true), .backtracking { decisions := 2, conflicts := 1 }) :=
    Solver.solve_backtracking declared Backtrack.search_exclusiveOr
  have reached : exclusiveOrDecided ∈
      (Backtrack.Search.start ["a", "b"]).states (.ofCnf exclusiveOr) := by
    rw [Backtrack.Search.states_of_next (t := exclusiveOrDecided) (by cbv),
      Backtrack.Search.states.eq_def _ exclusiveOrDecided]
    simp
  obtain ⟨visited, last, answer, work, rfl, -, -, hlast, finishes, hsolve, divided⟩ :=
    backtracking_divides_search (G := Generator) exclusiveOr ["a", "b"] distinct declared {}
  obtain ⟨-, apart, covers, -⟩ := divided exclusiveOrDecided reached
  rw [found] at hsolve
  cases hsolve
  exact ⟨distinct, declared, _, last, rfl, hlast, finishes, reached, apart, covers satisfiable⟩

end CnfSearch

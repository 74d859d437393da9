import CnfSearch.Proofs.Backtrack.Phases
import CnfSearch.Proofs.Backtrack.Worklist
import CnfSearch.Random.Generator

set_option autoImplicit false

/-!
# The size of the search tree

Decisions are the inner nodes of the tree that a search explores and conflicts are its leaves. Every
decision adds one to the branches that are left and every conflict takes one away, so decisions and
conflicts tell how many are left (`Counted.balance`). Below a branch with `n` open symbols at most
`2 ^ n - 1` decisions can follow, one for each inner node of a full binary tree of that height
(`capacity`); behind the forced literals this bounds the whole search. The counters of whole runs are
in `backtracking_counts_tree`.
-/

namespace CnfSearch

namespace Backtrack

/-- The most decisions that can follow on given branches. -/
def capacity : List Branch → Nat
  | [] => 0
  | b :: rest => (Nat.pow 2 b.remaining.length - 1) + capacity rest

theorem capacity_append (branches others : List Branch) :
    capacity (branches ++ others) = capacity branches + capacity others := by
  induction branches with
  | nil => simp [capacity]
  | cons b rest ih =>
    simp only [List.cons_append, capacity, ih]
    omega

/-- A full binary tree has one inner node more than its two halves together. -/
theorem two_pow_pred_succ (n : Nat) :
    Nat.pow 2 (n + 1) - 1 = 1 + ((Nat.pow 2 n - 1) + (Nat.pow 2 n - 1)) := by
  have positive : 0 < Nat.pow 2 n := Nat.pow_pos (by decide)
  have hsucc : Nat.pow 2 (n + 1) = Nat.pow 2 n * 2 := rfl
  omega

/-- The tree below a branch with a symbol less is smaller. -/
theorem capacity_singleton_le {b d : Branch} (h : d.remaining.length + 1 = b.remaining.length) :
    capacity [d] ≤ Nat.pow 2 b.remaining.length - 1 := by
  rw [← h, two_pow_pred_succ]
  simp only [capacity]
  omega

section Expands

variable {f : Formula} {b : Branch} {children : List Branch} {work : Counters}
  (hexp : b.Expands f children work)

include hexp

/-- A decision adds one branch, a conflict takes one away, and a forced literal does neither. -/
theorem Branch.Expands.balance : work.decisions + 1 = work.conflicts + children.length := by
  cases hexp with
  | conflict => rfl
  | pure => rfl
  | unit => rfl
  | decide => rfl

/-- A decision takes one node from the tree below its branch. -/
theorem Branch.Expands.capacity_le :
    work.decisions + capacity children ≤ Nat.pow 2 b.remaining.length - 1 := by
  have closed := hexp.length_remaining
  cases hexp with
  | conflict => exact Nat.zero_le _
  | @pure _ d =>
    rw [Nat.zero_add]
    exact capacity_singleton_le (closed d List.mem_cons_self)
  | @unit _ d =>
    rw [Nat.zero_add]
    exact capacity_singleton_le (closed d List.mem_cons_self)
  | @decide _ _ high low =>
    have hhigh := closed high (by simp)
    have hlow := closed low (by simp)
    have same : high.remaining.length = low.remaining.length := by omega
    rw [← hlow, two_pow_pred_succ]
    simp only [capacity, same]
    omega

end Expands

/-- The counters agree with the number of branches that are left, and what can still be decided
stays below a bound. -/
structure Counted (bound : Nat) (branches : List Branch) (counters : Counters) : Prop where
  balance : counters.decisions + 1 = counters.conflicts + branches.length
  bounded : counters.decisions + capacity branches ≤ bound

theorem Counted.expand {f : Formula} {bound : Nat} {b : Branch} {rest children : List Branch}
    {counters work : Counters} (h : Counted bound (b :: rest) counters)
    (hexp : b.Expands f children work) : Counted bound (children ++ rest) (counters + work) := by
  obtain ⟨balance, bounded⟩ := h
  have hdecisions : (counters + work).decisions = counters.decisions + work.decisions := rfl
  have hconflicts : (counters + work).conflicts = counters.conflicts + work.conflicts := rfl
  constructor
  · have hbalance := hexp.balance
    rw [List.length_cons] at balance
    rw [hdecisions, hconflicts, List.length_append]
    omega
  · have hcapacity := hexp.capacity_le
    rw [capacity] at bounded
    rw [hdecisions, capacity_append]
    omega

/-! ## Whole searches -/

namespace Search

variable {f : Formula} {s t : Search} {pures units : List Literal}

/-- Following forced literals decides nothing and meets no conflict. -/
theorem Forces.decisions_eq (path : s.Forces f pures units t) :
    t.counters.decisions = s.counters.decisions ∧ t.counters.conflicts = s.counters.conflicts := by
  induction path with
  | done => exact ⟨rfl, rfl⟩
  | unit _ _ _ ih => exact ih
  | pure _ _ _ ih => exact ih

/-- A search whose current branch satisfies all clauses finishes. -/
theorem step_of_satisfied {model : Assignment}
    (satisfied : Cnf.allSatisfied f.clauses s.current.model = true)
    (completed : s.current.complete = .ok model) :
    s.step f = .ok (.finish (.ok model) s.counters) := by
  have due : s.current.move f = .succeed := by rw [Branch.move, if_pos satisfied]
  simp only [step, due, completed]

end Search

section Declared

variable {f : Formula} {symbols : List Symbol} (distinct : symbols.Nodup)
  (declared : ∀ c ∈ f.clauses, ∀ l ∈ c.literals, l.symbol ∈ symbols)

include declared

/-- A branch that splits declared symbols never runs out of them undecided. -/
theorem Branch.Splits.move_ne_exhausted {b : Branch} (h : b.Splits symbols) :
    b.move f ≠ .exhausted := by
  intro hmove
  have due := b.due_move f
  rw [hmove] at due
  cases due with
  | exhausted undecided _ _ closed => exact h.not_undecided declared closed undecided

include distinct

/-- Behind its forced literals a search is at the root of a tree over the other symbols. -/
theorem Search.exists_root : ∃ pures units t, (Search.start symbols).Forces f pures units t ∧
    pures.length + units.length ≤ symbols.length ∧
    Deciding f pures units symbols (t.current :: t.pending) t.counters ∧
    Counted (Nat.pow 2 (symbols.length - pures.length - units.length) - 1)
      (t.current :: t.pending) t.counters := by
  obtain ⟨pures, units, t, path, hpending, hlist, deciding⟩ :=
    Search.exists_phases (f := f) distinct declared
  have splits := (deciding.behind t.current List.mem_cons_self).splits
  have hlength := splits.partition.length_eq
  simp only [Assignment.symbols, hlist, List.length_append, List.length_map] at hlength
  obtain ⟨hdecisions, hconflicts⟩ := path.decisions_eq
  have hheight : t.current.remaining.length = symbols.length - pures.length - units.length := by
    omega
  refine ⟨pures, units, t, path, by omega, deciding, ?_, ?_⟩
  · rw [hdecisions, hconflicts, hpending]
    rfl
  · rw [hdecisions, hpending, ← hheight]
    simp [capacity, Search.start]

end Declared

end Backtrack

/-- Backtracking without a model meets one conflict more than it makes decisions. With a model it
meets at most as many, and the difference is the number of alternatives that still wait when the
last branch is completed. The decisions are at most the inner nodes of a full binary tree over the
symbols that are not forced, and no branch runs out of open symbols without a conflict. -/
theorem backtracking_counts_tree {G : Type} [DrawSource G] (cnf : Cnf) (symbols : List Symbol)
    (distinct : symbols.Nodup) (declared : ∀ c ∈ cnf, ∀ l ∈ c.literals, l.symbol ∈ symbols)
    (counters : Counters) :
    ∃ (answer : Answer) (work : Counters),
      (Solver.backtracking counters : Solver G).solve cnf symbols =
          .ok (answer, .backtracking work) ∧
        ((answer = .error .unsatisfiable ∧ work.conflicts = work.decisions + 1) ∨
          ∃ model last, answer = .ok model ∧
            ((Backtrack.Search.start symbols).states (.ofCnf cnf)).getLast? = some last ∧
            last.current.complete = .ok model ∧ work.conflicts ≤ work.decisions ∧
            work.decisions - work.conflicts = last.pending.length) ∧
        work.pureLiterals + work.propagations ≤ symbols.length ∧
        work.decisions ≤ Nat.pow 2 (symbols.length - work.pureLiterals - work.propagations) - 1 ∧
        ∀ s ∈ (Backtrack.Search.start symbols).states (.ofCnf cnf),
          s.current.move (.ofCnf cnf) ≠ .exhausted := by
  obtain ⟨pures, units, t, path, hforced, deciding, counted⟩ :=
    Backtrack.Search.exists_root (f := .ofCnf cnf) distinct declared
  obtain ⟨hstates, r, hr, answer, work, hrun, ends⟩ :=
    Backtrack.Search.run_of_frontier (P := fun branches counters =>
        Backtrack.Deciding (.ofCnf cnf) pures units symbols branches counters ∧
          Backtrack.Counted (Nat.pow 2 (symbols.length - pures.length - units.length) - 1)
            branches counters)
      distinct declared (fun b _ _ h => (h.1.behind b List.mem_cons_self).splits)
      (fun _ _ _ _ _ h hexp => ⟨h.1.expand hexp, h.2.expand hexp⟩) t ⟨deciding, counted⟩
  obtain ⟨left, hdeciding, hcounted⟩ := ends.exists_left (hstates r hr)
  have bounded := hcounted.bounded
  rw [← hdeciding.pures_counted, ← hdeciding.units_counted] at bounded hforced
  refine ⟨answer, work, ?_, ?_, hforced, by omega, fun s hs => ?_⟩
  · apply Solver.solve_backtracking declared
    rw [Backtrack.search, path.run_eq, hrun]
  · cases ends with
    | model satisfied completed =>
      have hlast := Backtrack.Search.getLast?_states_of_finish (path.states_subset hr)
        (Backtrack.Search.step_of_satisfied satisfied completed)
      have balance := (hstates r hr).2.balance
      rw [List.length_cons] at balance
      exact Or.inr ⟨_, r, rfl, hlast, completed, by omega, by omega⟩
    | exhausted closed => exact Or.inl ⟨rfl, closed.2.balance.symm⟩
  · have divides := Backtrack.Search.divides_of_mem_states (f := .ofCnf cnf) distinct declared hs
    have splits := divides.frontier.splits s.current List.mem_cons_self
    exact splits.move_ne_exhausted (f := .ofCnf cnf) declared

/-- Of the two decisions on the exclusive or one is taken back; the alternative to the other one
still waits when the model is found. -/
theorem backtracking_counts_tree_exclusiveOr :
    ["a", "b"].Nodup ∧ (∀ c ∈ exclusiveOr, ∀ l ∈ c.literals, l.symbol ∈ ["a", "b"]) ∧
      ∃ work last, (Solver.backtracking {} : Solver Generator).solve exclusiveOr ["a", "b"] =
            .ok (.ok (exclusiveOrModel true), .backtracking work) ∧
        work.decisions = 2 ∧ work.conflicts = 1 ∧
        ((Backtrack.Search.start ["a", "b"]).states (.ofCnf exclusiveOr)).getLast? = some last ∧
        last.current.complete = .ok (exclusiveOrModel true) ∧ last.pending.length = 1 ∧
        work.decisions ≤ Nat.pow 2 (2 - work.pureLiterals - work.propagations) - 1 := by
  have distinct : ["a", "b"].Nodup := by decide
  have declared : ∀ c ∈ exclusiveOr, ∀ l ∈ c.literals, l.symbol ∈ ["a", "b"] := by decide
  have found : (Solver.backtracking {} : Solver Generator).solve exclusiveOr ["a", "b"] =
      .ok (.ok (exclusiveOrModel true), .backtracking { decisions := 2, conflicts := 1 }) :=
    Solver.solve_backtracking declared Backtrack.search_exclusiveOr
  obtain ⟨answer, work, hsolve, balance, -, bounded, -⟩ :=
    backtracking_counts_tree (G := Generator) exclusiveOr ["a", "b"] distinct declared {}
  rw [found] at hsolve
  cases hsolve
  rcases balance with ⟨impossible, -⟩ | ⟨model, last, hmodel, hlast, completed, -, waiting⟩
  · cases impossible
  · cases hmodel
    exact ⟨distinct, declared, _, last, found, rfl, rfl, hlast, completed, waiting.symm, bounded⟩

end CnfSearch

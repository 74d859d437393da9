import CnfSearch.Backtrack.Search
import CnfSearch.Proofs.Backtrack.Moves
import CnfSearch.Proofs.Backtrack.Partition

set_option autoImplicit false

/-!
# Steps as expansions of the current branch

A step either ends the search with a model or replaces the current branch by its children: none
after a conflict, one after a forced literal, two after a decision (`Branch.Expands`). Over declared
symbols no other step happens, and a step fails only at a repeated symbol (`Search.step_cases`); if
the symbols are distinct, no step fails: `Search.step_spec`.
-/

namespace CnfSearch.Backtrack

/-- The branches that take the place of a branch, and the work that replacing it counts. -/
inductive Branch.Expands (f : Formula) (b : Branch) : List Branch → Counters → Prop where
  | conflict (falsified : Cnf.anyFalsified f.clauses b.model = true) :
      Expands f b [] { conflicts := 1 }
  | pure {l : Literal} {d : Branch} (undecided : b.Undecided f)
      (first : firstPure? f.pures b.remaining = some l) (followed : b.follow l = .ok d) :
      Expands f b [d] { pureLiterals := 1 }
  | unit {l : Literal} {d : Branch} (undecided : b.Undecided f)
      (noPure : firstPure? f.pures b.remaining = none)
      (first : firstUnit? f.clauses b.model = some l) (hopen : l.symbol ∈ b.remaining)
      (followed : b.follow l = .ok d) :
      Expands f b [d] { propagations := 1 }
  | decide {s : Symbol} {rest : List Symbol} {high low : Branch} (undecided : b.Undecided f)
      (noPure : firstPure? f.pures b.remaining = none)
      (noUnit : firstUnit? f.clauses b.model = none) (first : b.remaining = s :: rest)
      (followedHigh : b.follow ⟨s, true⟩ = .ok high) (followedLow : b.follow ⟨s, false⟩ = .ok low) :
      Expands f b [high, low] { decisions := 1 }

section Declared

variable {f : Formula} {symbols : List Symbol}
  (declared : ∀ c ∈ f.clauses, ∀ l ∈ c.literals, l.symbol ∈ symbols)

include declared

/-- A branch on which no symbol is open decides every clause. -/
theorem Branch.Splits.not_undecided {b : Branch} (h : b.Splits symbols)
    (closed : b.remaining = []) : ¬ b.Undecided f := by
  intro undecided
  rcases Cnf.allSatisfied_or_anyFalsified
    (fun c hc l hl => h.mem_symbols_of_closed closed (declared c hc l hl)) with hsat | hfalse
  · rw [undecided.unsatisfied] at hsat
    cases hsat
  · rw [undecided.unfalsified] at hfalse
    cases hfalse

/-- The symbol of an open unit literal is open. -/
theorem Branch.Splits.unit_open {b : Branch} (h : b.Splits symbols) (undecided : b.Undecided f)
    {l : Literal} (first : firstUnit? f.clauses b.model = some l) : l.symbol ∈ b.remaining := by
  obtain ⟨c, hc, hsole, -⟩ := spec_of_firstUnit? first
  exact h.mem_remaining (declared c hc l (by simp [hsole])) (undecided.unit_fresh first)

/-- A step ends the search with a model of the satisfied clauses, expands the current branch, or
fails at a repeated symbol. -/
theorem Search.step_cases {s : Search} (h : s.current.Splits symbols) :
    (∃ model, Cnf.allSatisfied f.clauses s.current.model = true ∧
        s.current.complete = .ok model ∧ s.step f = .ok (.finish (.ok model) s.counters)) ∨
      (∃ children work, s.current.Expands f children work ∧
        s.step f = .ok (giveUp (children ++ s.pending) (s.counters + work))) ∨
      ∃ x, List.Duplicate x symbols ∧ s.step f = .error (.reassigned x) := by
  have due := s.current.due_move f
  generalize hmove : s.current.move f = move at due
  -- The tests of each move give what its child branches need; `exhausted` contradicts them.
  cases due with
  | succeed satisfied =>
    rcases h.complete_cases with ⟨model, hcomplete, -⟩ | ⟨x, duplicate, hcomplete⟩
    · exact Or.inl ⟨model, satisfied, hcomplete, by simp only [step, hmove, hcomplete]⟩
    · exact Or.inr (Or.inr ⟨x, duplicate, by simp only [step, hmove, hcomplete]⟩)
  | conflict _ falsified =>
    refine Or.inr (Or.inl ⟨[], _, .conflict falsified, ?_⟩)
    simp only [step, hmove]
    rfl
  | @pure l undecided first =>
    have hopen := (spec_of_firstPure? first).2.2
    by_cases assigned : l.symbol ∈ s.current.model.symbols
    · refine Or.inr (Or.inr ⟨l.symbol, h.duplicate assigned hopen, ?_⟩)
      simp only [step, hmove, Branch.follow_of_assigned assigned]
    · obtain ⟨d, hd⟩ := Branch.exists_follow_of_fresh assigned
      refine Or.inr (Or.inl ⟨[d], _, .pure undecided first hd, ?_⟩)
      simp only [step, hmove, hd]
      rfl
  | @unit l undecided noPure first =>
    have hopen := h.unit_open declared undecided first
    obtain ⟨d, hd⟩ := Branch.exists_follow_of_fresh (undecided.unit_fresh first)
    refine Or.inr (Or.inl ⟨[d], _, .unit undecided noPure first hopen hd, ?_⟩)
    simp only [step, hmove, hd]
    rfl
  | exhausted undecided _ _ closed =>
    exact absurd undecided (h.not_undecided declared closed)
  | @decide x rest undecided noPure noUnit first =>
    have hopen : x ∈ s.current.remaining := by simp [first]
    by_cases assigned : x ∈ s.current.model.symbols
    · refine Or.inr (Or.inr ⟨x, h.duplicate assigned hopen, ?_⟩)
      simp only [step, hmove, Branch.decide_eq_follow first,
        Branch.follow_of_assigned (l := ⟨x, false⟩) assigned]
    · obtain ⟨high, hhigh⟩ := Branch.exists_follow_of_fresh (l := ⟨x, true⟩) assigned
      obtain ⟨low, hlow⟩ := Branch.exists_follow_of_fresh (l := ⟨x, false⟩) assigned
      refine Or.inr (Or.inl
        ⟨[high, low], _, .decide undecided noPure noUnit first hhigh hlow, ?_⟩)
      simp only [step, hmove, Branch.decide_eq_follow first, hhigh, hlow]
      rfl

/-- Over distinct symbols a step ends the search with a model of the satisfied clauses or expands
the current branch. -/
theorem Search.step_spec (distinct : symbols.Nodup) {s : Search} (h : s.current.Splits symbols) :
    (∃ model, Cnf.allSatisfied f.clauses s.current.model = true ∧
        s.current.complete = .ok model ∧ s.step f = .ok (.finish (.ok model) s.counters)) ∨
      ∃ children work, s.current.Expands f children work ∧
        s.step f = .ok (giveUp (children ++ s.pending) (s.counters + work)) := by
  rcases step_cases declared h with finishes | expands | ⟨x, duplicate, -⟩
  · exact Or.inl finishes
  · exact Or.inr expands
  · exact absurd distinct duplicate.not_nodup

end Declared

/-- The children of a branch split the symbols as it does. -/
theorem Branch.Expands.splits {f : Formula} {b : Branch} {children : List Branch}
    {work : Counters} {symbols : List Symbol} (hexp : b.Expands f children work)
    (h : b.Splits symbols) : ∀ d ∈ children, d.Splits symbols := by
  cases hexp with
  | conflict => simp
  | pure _ first followed =>
    simpa using h.of_follow (spec_of_firstPure? first).2.2 followed
  | unit _ _ _ hopen followed => simpa using h.of_follow hopen followed
  | decide _ _ _ first followedHigh followedLow =>
    have hhigh := h.of_follow (by simp [first]) followedHigh
    have hlow := h.of_follow (by simp [first]) followedLow
    simpa using ⟨hhigh, hlow⟩

end CnfSearch.Backtrack

import CnfSearch.Proofs.Backtrack.Runs
import CnfSearch.Proofs.Problem.Declaring
import CnfSearch.Random.Generator

set_option autoImplicit false

/-!
# Solving over a list that repeats a symbol

A solver does not look whether the symbols that it is given are distinct. An assignment of all of
them would have to assign the repeated one twice, so a walk fails before its first step
(`Walk.start_of_repeated`), and backtracking fails too unless every branch meets a conflict first.
That is a proof even then: `repetition_yields_no_model`.
-/

namespace CnfSearch

variable {symbols : List Symbol}

/-- No assignment has exactly the symbols of a list that repeats one. -/
theorem Assignment.IsModel.distinct {a : Assignment} {cnf : Cnf} (h : a.IsModel cnf symbols) :
    symbols.Nodup :=
  h.assigns.nodup_iff.mp a.nodup_symbols

/-- A walk draws a value for one symbol after another and fails at the first that has one already,
whatever it draws. -/
theorem Walk.start_of_repeated {G : Type} [DrawSource G] {s : Symbol}
    (first : FirstRepeated symbols s) (source : G) :
    start symbols source = .error (.reassigned s) := by
  have hsymbols := map_symbol_randomLiterals source symbols
  rw [start]
  generalize randomLiterals source symbols = drawn at hsymbols ⊢
  obtain ⟨literals, source'⟩ := drawn
  dsimp only
  rw [Assignment.ofLiterals]
  rcases Assignment.empty.assignAll_cases literals with
    ⟨model, -, hlist⟩ | ⟨before, l, after, split, distinct, again, refused⟩
  · -- An assignment of all drawn literals would have a repeated symbol.
    have nodup : symbols.Nodup := by
      rw [← hsymbols, ← literals.nil_append, ← Assignment.toList_empty, ← hlist]
      exact model.nodup_symbols
    obtain ⟨before, after, rfl, -, again⟩ := first
    exact absurd rfl ((List.nodup_append.mp nodup).2.2 s again s List.mem_cons_self)
  · have refusedFirst : FirstRepeated symbols l.symbol := by
      refine ⟨before.map Literal.symbol, after.map Literal.symbol, ?_, distinct, again⟩
      rw [← hsymbols, split, List.map_append, List.map_cons]
    rw [← firstRepeated?_eq_some_iff] at first refusedFirst
    rw [first, Option.some.injEq] at refusedFirst
    simp only [refused, refusedFirst]

/-- Over a list that repeats a symbol no solver finds a model. A walk fails, whatever its settings
and draws, at the symbol whose second occurrence comes first. Backtracking ends: it fails at a
repeated symbol, and always does if the clauses have a model, or it answers that they have none. The
fault says that the symbol was assigned twice. -/
theorem repetition_yields_no_model {G : Type} [DrawSource G] (cnf : Cnf) (symbols : List Symbol)
    (repeated : ¬ symbols.Nodup) (declared : ∀ c ∈ cnf, ∀ l ∈ c.literals, l.symbol ∈ symbols) :
    (∃ s, FirstRepeated symbols s ∧ ∀ walker : Walker G,
        (Solver.walking walker).solve cnf symbols = .error (.reassigned s)) ∧
      (∀ counters,
        (∃ s, List.Duplicate s symbols ∧
          (Solver.backtracking counters : Solver G).solve cnf symbols = .error (.reassigned s)) ∨
        ∃ work, (Solver.backtracking counters : Solver G).solve cnf symbols =
            .ok (.error .unsatisfiable, .backtracking work) ∧
          ¬ ∃ v : Valuation, Cnf.eval v cnf = true) ∧
      ((∃ v : Valuation, Cnf.eval v cnf = true) → ∃ s, List.Duplicate s symbols ∧ ∀ counters,
        (Solver.backtracking counters : Solver G).solve cnf symbols = .error (.reassigned s)) ∧
      ∀ s, (Fault.reassigned s).message? = some ("symbol " ++ s ++ " assigned twice") := by
  have ends : (∃ work, Backtrack.search cnf symbols = .ok (.error .unsatisfiable, work) ∧
        ¬ ∃ v : Valuation, Cnf.eval v cnf = true) ∨
      ∃ s, List.Duplicate s symbols ∧ Backtrack.search cnf symbols = .error (.reassigned s) := by
    rcases Backtrack.search_cases declared with ⟨answer, work, hsearch, decides⟩ | fails
    · cases answer with
      | ok model => exact absurd decides.distinct repeated
      | error failure =>
        obtain ⟨rfl, unsatisfiable⟩ := decides
        exact Or.inl ⟨work, hsearch, unsatisfiable⟩
    · exact Or.inr fails
  refine ⟨?_, fun counters => ?_, fun satisfiable => ?_, fun s => rfl⟩
  · obtain ⟨s, first⟩ := exists_firstRepeated repeated
    refine ⟨s, first, fun walker => Solver.solve_walking_fault declared ?_⟩
    rw [Walk.search, Walk.start_of_repeated first]
  · rcases ends with ⟨work, hsearch, unsatisfiable⟩ | ⟨s, duplicate, fails⟩
    · exact Or.inr ⟨work, Solver.solve_backtracking declared hsearch, unsatisfiable⟩
    · exact Or.inl ⟨s, duplicate, Solver.solve_backtracking_fault declared fails⟩
  · rcases ends with ⟨work, hsearch, unsatisfiable⟩ | ⟨s, duplicate, fails⟩
    · exact absurd satisfiable unsatisfiable
    · exact ⟨s, duplicate, fun counters => Solver.solve_backtracking_fault declared fails⟩

/-- On the exclusive or, with its first symbol listed twice, both solvers fail. -/
theorem repetition_yields_no_model_exclusiveOr :
    ¬ ["a", "b", "a"].Nodup ∧ (∀ c ∈ exclusiveOr, ∀ l ∈ c.literals, l.symbol ∈ ["a", "b", "a"]) ∧
      (∃ v : Valuation, Cnf.eval v exclusiveOr = true) ∧
      (∃ s, ∀ walker : Walker Generator,
        (Solver.walking walker).solve exclusiveOr ["a", "b", "a"] = .error (.reassigned s)) ∧
      ∃ s, (Solver.backtracking {} : Solver Generator).solve exclusiveOr ["a", "b", "a"] =
        .error (.reassigned s) := by
  have repeated : ¬ ["a", "b", "a"].Nodup := by decide
  have declared : ∀ c ∈ exclusiveOr, ∀ l ∈ c.literals, l.symbol ∈ ["a", "b", "a"] := by decide
  have satisfiable : ∃ v : Valuation, Cnf.eval v exclusiveOr = true :=
    ⟨fun s => s == "a", by decide⟩
  obtain ⟨⟨s, -, walks⟩, -, fails, -⟩ :=
    repetition_yields_no_model (G := Generator) exclusiveOr ["a", "b", "a"] repeated declared
  obtain ⟨t, -, fails⟩ := fails satisfiable
  exact ⟨repeated, declared, satisfiable, ⟨s, walks⟩, t, fails {}⟩

/-- On a contradiction the conflict comes before the second assignment. -/
example : Backtrack.search contradiction ["a", "a"] =
    .ok (.error .unsatisfiable, { propagations := 1, conflicts := 1 }) := by
  rw [Backtrack.search, Backtrack.Search.run_of_next
      (t := ⟨⟨["a"], .extend .empty ⟨"a", true⟩ (by cbv)⟩, [], { propagations := 1 }⟩) (by cbv),
    Backtrack.Search.run_of_finish (by cbv)]

end CnfSearch

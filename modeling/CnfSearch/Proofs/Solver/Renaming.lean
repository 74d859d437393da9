import CnfSearch.Proofs.Backtrack.Renaming
import CnfSearch.Proofs.Backtrack.Worklist
import CnfSearch.Proofs.Walk.Renaming
import CnfSearch.Random.Generator

set_option autoImplicit false

/-!
# Solving under a renaming

A solver that is given renamed clauses and symbols does what it does with the given ones, up to the
renaming (`Solver.solve_rename`). The renaming need only be injective on the symbols that are
mentioned, as a result names no other one. This needs no invariant of the searches: two injective
renamings that agree on the mentioned symbols alone lead to one and the same result, so that they
agree on whatever it names (`Parallel.of_agree`).
-/

namespace CnfSearch

/-- The symbols of a list and of clauses. -/
def mentioned (cnf : Cnf) (symbols : List Symbol) : List Symbol :=
  symbols ++ (Cnf.literals cnf).map Literal.symbol

/-! ## Injective renamings -/

/-- A renamed solve gives the renamed answer and leaves the same solver, or stops with the renamed
fault. -/
theorem Solver.solve_rename {G : Type} [DrawSource G] {ρ : Symbol → Symbol}
    (injective : Function.Injective ρ) (solver : Solver G) (cnf : Cnf) (symbols : List Symbol) :
    Parallel ρ (fun x y => RenamedAnswer ρ x.1 y.1 ∧ y.2 = x.2) (solver.solve cnf symbols)
      (solver.solve (Cnf.rename ρ cnf) (symbols.map ρ)) := by
  simp only [solve, Cnf.firstUndeclared?_rename injective]
  cases Cnf.firstUndeclared? cnf symbols with
  | some s => exact .ok ⟨.failure (.undeclared s), rfl⟩
  | none =>
    cases solver with
    | backtracking counters =>
      rcases (Backtrack.search_rename injective cnf symbols).ok_or_error with
        ⟨⟨x, work⟩, ⟨y, _⟩, hx, hy, answers, rfl⟩ | ⟨fault, hx, hy⟩
      · simp only [Option.map_none, hx, hy]
        exact .ok ⟨answers, rfl⟩
      · simp only [Option.map_none, hx, hy]
        exact .error fault
    | walking walker =>
      rcases (Walk.search_rename injective walker.settings cnf symbols walker.source).ok_or_error
        with ⟨⟨x, s⟩, ⟨y, t⟩, hx, hy, answers, left⟩ | ⟨fault, hx, hy⟩
      · simp only [Option.map_none, hx, hy]
        exact .ok ⟨answers, by rw [left.source, left.counters]⟩
      · simp only [Option.map_none, hx, hy]
        exact .error fault

/-! ## Renamings that agree on what a result names -/

section Agree

variable {ρ σ τ : Symbol → Symbol} (agree : ∀ s, σ s = τ s → σ s = ρ s)

include agree

theorem Failure.rename_of_agree {failure : Failure} (h : failure.rename σ = failure.rename τ) :
    failure.rename σ = failure.rename ρ := by
  cases failure with
  | unsatisfiable => rfl
  | exhausted steps => rfl
  | undeclared s => exact congrArg Failure.undeclared (agree s (Failure.undeclared.inj h))

theorem Fault.rename_of_agree {fault : Fault} (h : fault.rename σ = fault.rename τ) :
    fault.rename σ = fault.rename ρ := by
  cases fault with
  | reassigned s => exact congrArg Fault.reassigned (agree s (Fault.reassigned.inj h))
  | undecided => rfl
  | capacity => rfl

theorem Assignment.Renames.of_agree {a b : Assignment} (hσ : a.Renames σ b) (hτ : a.Renames τ b) :
    a.Renames ρ b := by
  have same : a.toList.map (Literal.rename σ) = a.toList.map (Literal.rename τ) := hσ.symm.trans hτ
  rw [Renames, hσ]
  refine List.map_congr_left fun l hl => Literal.rename_congr (agree l.symbol ?_)
  exact congrArg Literal.symbol (List.map_inj_left.mp same l hl)

theorem RenamedAnswer.of_agree {x y : Answer} (hσ : RenamedAnswer σ x y)
    (hτ : RenamedAnswer τ x y) : RenamedAnswer ρ x y := by
  cases hσ with
  | model renames =>
    cases hτ with
    | model renames' => exact .model (renames.of_agree agree renames')
  | failure failure =>
    generalize hname : failure.rename σ = name at hτ
    cases hτ with
    | failure =>
      rw [← hname, Failure.rename_of_agree agree hname]
      exact .failure failure

/-- What two renamings agree on is all that a common result names. -/
theorem Parallel.of_agree {α β : Type} {R S T : α → β → Prop} {x : Except Fault α}
    {y : Except Fault β} (hσ : Parallel σ R x y) (hτ : Parallel τ S x y)
    (related : ∀ a b, R a b → S a b → T a b) : Parallel ρ T x y := by
  cases hσ with
  | ok first =>
    cases hτ with
    | ok second => exact .ok (related _ _ first second)
  | error fault =>
    generalize hname : fault.rename σ = name at hτ
    cases hτ with
    | error =>
      rw [← hname, Fault.rename_of_agree agree hname]
      exact .error fault

end Agree

/-! ## Renamings that are injective on the mentioned symbols -/

/-- Neither strategy depends on the names of symbols. Under a renaming that confuses no mentioned
symbols, a solver gives the renamed answer: the same model, in the same order, with its symbols
renamed, or the same failure, with an undeclared symbol renamed. It leaves the same solver, with the
same counters and the same draws to come, and faults exactly if it does with the given names. -/
theorem solving_ignores_names {G : Type} [DrawSource G] (solver : Solver G) (cnf : Cnf)
    (symbols : List Symbol) (ρ : Symbol → Symbol)
    (injective : Set.InjOn ρ {s | s ∈ mentioned cnf symbols}) :
    Parallel ρ (fun x y => RenamedAnswer ρ x.1 y.1 ∧ y.2 = x.2) (solver.solve cnf symbols)
      (solver.solve (Cnf.rename ρ cnf) (symbols.map ρ)) := by
  obtain ⟨σ, τ, hσ, hτ, extend, apart⟩ := exists_injective_pair injective
  have listed : ∀ {s : Symbol}, s ∈ symbols → σ s = ρ s ∧ τ s = ρ s := fun h =>
    extend _ (List.mem_append_left _ h)
  have occurring : ∀ {l : Literal}, l ∈ Cnf.literals cnf →
      σ l.symbol = ρ l.symbol ∧ τ l.symbol = ρ l.symbol := fun h =>
    extend _ (List.mem_append_right _ (List.mem_map_of_mem h))
  have first := solver.solve_rename hσ cnf symbols
  have second := solver.solve_rename hτ cnf symbols
  -- All three renamings pose the same problem.
  rw [Cnf.rename_congr fun l hl => (occurring hl).1,
    List.map_congr_left fun s hs => (listed hs).1] at first
  rw [Cnf.rename_congr fun l hl => (occurring hl).2,
    List.map_congr_left fun s hs => (listed hs).2] at second
  have agree : ∀ s, σ s = τ s → σ s = ρ s := fun s same => (extend s (apart s same)).1
  refine first.of_agree agree second ?_
  rintro ⟨x, left⟩ ⟨y, left'⟩ ⟨answers, same⟩ ⟨answers', -⟩
  exact ⟨answers.of_agree agree answers', same⟩

/-- Two sides get names of their own; all other symbols get one name. -/
def nameSide (s : Symbol) : Symbol := if s = "a" then "left" else "right"

/-- With renamed sides, the exclusive or has the renamed model after the same search. -/
theorem solving_ignores_names_exclusiveOr :
    Set.InjOn nameSide {s | s ∈ mentioned exclusiveOr ["a", "b"]} ∧
      ∃ model,
        (Solver.backtracking {} : Solver Generator).solve (Cnf.rename nameSide exclusiveOr)
            ["left", "right"] =
          .ok (.ok model, .backtracking { decisions := 2, conflicts := 1 }) ∧
        model.toList = [⟨"left", true⟩, ⟨"right", false⟩] := by
  have injective : Set.InjOn nameSide {s | s ∈ mentioned exclusiveOr ["a", "b"]} := by
    have checked : ∀ s ∈ mentioned exclusiveOr ["a", "b"], ∀ t ∈ mentioned exclusiveOr ["a", "b"],
        nameSide s = nameSide t → s = t := by decide
    exact fun s hs t ht => checked s hs t ht
  have declared : ∀ c ∈ exclusiveOr, ∀ l ∈ c.literals, l.symbol ∈ ["a", "b"] := by decide
  have found : (Solver.backtracking {} : Solver Generator).solve exclusiveOr ["a", "b"] =
      .ok (.ok (exclusiveOrModel true), .backtracking { decisions := 2, conflicts := 1 }) :=
    Solver.solve_backtracking declared Backtrack.search_exclusiveOr
  have renamed := solving_ignores_names (.backtracking {} : Solver Generator) exclusiveOr ["a", "b"]
    nameSide injective
  rcases renamed.ok_or_error with ⟨x, ⟨y, left⟩, hx, hy, answers, same⟩ | ⟨fault, hx, hy⟩
  · obtain rfl : _ = x := Except.ok.inj (found.symm.trans hx)
    cases answers with
    | model renames =>
      obtain rfl := same
      exact ⟨injective, _, hy, renames⟩
  · rw [found] at hx
    cases hx

end CnfSearch

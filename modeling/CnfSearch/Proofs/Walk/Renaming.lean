import CnfSearch.Proofs.Model.Renaming
import CnfSearch.Walk.Search

set_option autoImplicit false

/-!
# Walks under a renaming

A walk over renamed clauses and symbols makes the same draws as the walk over the given ones, and
flips the renamed symbols: a draw depends on the length of a clause only, and the preference for
frequent literals on their counts and their order (`choose_rename`). Step by step the two walks
keep renamed models, one source and the same counters (`State.Renames.repair`), and so they end
alike: `search_rename`.
-/

namespace CnfSearch.Walk

variable {G : Type} {ρ : Symbol → Symbol}

/-- The renamed clauses with their own counts. -/
def Formula.rename (ρ : Symbol → Symbol) (f : Formula) : Formula := .ofCnf (Cnf.rename ρ f.clauses)

/-- The same choice, with its literal renamed. -/
def Choice.rename (ρ : Symbol → Symbol) (choice : Choice) : Choice :=
  { choice with literal := choice.literal.rename ρ }

/-- The renamed model, the same draws to come and the same work. -/
structure State.Renames (ρ : Symbol → Symbol) (s t : State G) : Prop where
  model : s.model.Renames ρ t.model
  source : t.source = s.source
  counters : t.counters = s.counters

variable [DrawSource G]

/-- Equal bounds, equal draws. -/
theorem below_cast {m n : Nat} (h : m = n) (hm : 0 < m) (hn : 0 < n) (source : G) :
    DrawSource.below m hm source =
      ((DrawSource.below n hn source).1.cast h.symm, (DrawSource.below n hn source).2) := by
  subst h
  rfl

theorem get_rename (c : Clause) (i : Fin c.length) :
    (c.rename ρ).get (i.cast c.length_rename.symm) = (c.get i).rename ρ :=
  List.getElem_map _

theorem randomLiterals_rename (source : G) (symbols : List Symbol) :
    randomLiterals source (symbols.map ρ) =
      ((randomLiterals source symbols).1.map (Literal.rename ρ),
        (randomLiterals source symbols).2) := by
  induction symbols generalizing source with
  | nil => rfl
  | cons s rest ih =>
    rw [List.map_cons]
    simp only [randomLiterals, ih]
    rfl

section Injective

variable (injective : Function.Injective ρ)

include injective

/-! ## Choices -/

/-- The most frequent literal keeps its place under its new name. -/
theorem mostFrequent_rename (f : Formula) (c : Clause) :
    mostFrequent (f.rename ρ).occurrences (c.rename ρ) =
      (mostFrequent f.occurrences c).rename ρ := by
  have counts (l : Literal) :
      (f.rename ρ).occurrences.count (l.rename ρ) = f.occurrences.count l := by
    rw [f.occurrences_eq]
    exact Occurrences.count_rename injective f.clauses l
  -- The fold carries a literal with its count; the renaming acts on the literal alone.
  let renamed : Literal × Nat → Literal × Nat := fun best => (best.1.rename ρ, best.2)
  have prefers : ∀ (best : Literal × Nat) (l : Literal),
      preferMoreFrequent (f.rename ρ).occurrences (renamed best) (l.rename ρ) =
        renamed (preferMoreFrequent f.occurrences best l) := by
    intro best l
    simp only [preferMoreFrequent, renamed, counts]
    split
    · rfl
    · rfl
  have first : ((c.rename ρ).first, 0) = renamed (c.first, 0) :=
    congrArg (·, 0) (List.head_map _)
  rw [mostFrequent, mostFrequent, Clause.literals_rename, List.foldl_map, first,
    List.foldl_hom renamed prefers]

/-- The same draw chooses the literal at the same place. -/
theorem choose_rename (f : Formula) (noise : Noise) (c : Clause) (source : G) :
    choose (f.rename ρ) noise (c.rename ρ) source =
      ((choose f noise c source).1.rename ρ, (choose f noise c source).2) := by
  simp only [choose]
  split
  · rw [below_cast c.length_rename _ c.length_pos]
    simp only [get_rename, Choice.rename]
  · simp only [mostFrequent_rename injective, Choice.rename]

/-! ## Steps and runs -/

variable {s t : State G} (h : s.Renames ρ t)

include h

theorem State.Renames.repair (f : Formula) (noise : Noise) (c : Clause) :
    (s.repair f noise c).Renames ρ (t.repair (f.rename ρ) noise (c.rename ρ)) := by
  rw [State.repair, State.repair, h.source, choose_rename injective]
  refine ⟨h.model.flip injective _, rfl, ?_⟩
  simp only [State.flip, h.counters]
  rfl

/-- Runs of renamed walks end alike, with the same draws to come and the same work. -/
theorem State.Renames.run (f : Formula) (settings : Settings) (budget : Nat) :
    Parallel ρ (fun x y => RenamedAnswer ρ x.1 y.1 ∧ x.2.Renames ρ y.2) (s.run f settings budget)
      (t.run (f.rename ρ) settings budget) := by
  induction budget generalizing s t with
  | zero => exact .ok ⟨.failure (.exhausted settings.maxSteps), h⟩
  | succ budget ih =>
    have hclauses : (f.rename ρ).clauses = Cnf.rename ρ f.clauses := rfl
    rw [State.run, State.run, hclauses, Cnf.allSatisfied_rename h.model injective,
      Cnf.firstFalsified?_rename h.model injective]
    -- Both walks now go on by the same tests.
    cases Cnf.allSatisfied f.clauses s.model with
    | true => exact .ok ⟨.model h.model, h⟩
    | false =>
      cases Cnf.firstFalsified? f.clauses s.model with
      | none => exact .error .undecided
      | some c => exact ih (h.repair injective f settings.noise c)

omit h

theorem start_rename (symbols : List Symbol) (source : G) :
    Parallel ρ (State.Renames ρ) (start symbols source) (start (symbols.map ρ) source) := by
  rw [start, start, randomLiterals_rename]
  dsimp only
  rcases (Assignment.renames_empty.assignAll injective
    (randomLiterals source symbols).1).ok_or_error with ⟨a, b, ha, hb, related⟩ | ⟨fault, ha, hb⟩
  · rw [Assignment.ofLiterals, Assignment.ofLiterals, ha, hb]
    exact .ok ⟨related, rfl, rfl⟩
  · rw [Assignment.ofLiterals, Assignment.ofLiterals, ha, hb]
    exact .error fault

/-- A walk over renamed clauses and symbols answers, draws and counts alike. -/
theorem search_rename (settings : Settings) (cnf : Cnf) (symbols : List Symbol) (source : G) :
    Parallel ρ (fun x y => RenamedAnswer ρ x.1 y.1 ∧ x.2.Renames ρ y.2)
      (search settings cnf symbols source)
      (search settings (Cnf.rename ρ cnf) (symbols.map ρ) source) := by
  rw [search, search]
  rcases (start_rename injective symbols source).ok_or_error with
    ⟨s, t, hs, ht, related⟩ | ⟨fault, hs, ht⟩
  · rw [hs, ht]
    exact related.run injective (.ofCnf cnf) settings settings.maxSteps
  · rw [hs, ht]
    exact .error fault

end Injective

end CnfSearch.Walk

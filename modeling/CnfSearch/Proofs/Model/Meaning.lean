import CnfSearch.Model.Satisfaction
import CnfSearch.Proofs.Formula.Forcing
import CnfSearch.Proofs.Model.Symbols

set_option autoImplicit false

/-!
# Partial assignments and valuations

What the judgement of clauses under a partial assignment says about the valuations that extend it:
satisfied clauses are true under all of them (`eval_of_allSatisfied`), a falsified clause is false
under all of them (`eval_of_anyFalsified`), and an assignment of all symbols decides every clause
(`allSatisfied_or_anyFalsified`). An assignment of exactly the declared symbols that satisfies all
clauses is a model (`Assignment.IsModel`).
-/

namespace CnfSearch

/-- A valuation extends an assignment if it makes all its literals true. -/
def Valuation.Extends (v : Valuation) (a : Assignment) : Prop :=
  ∀ l ∈ a.toList, l.eval v = true

theorem Valuation.extends_empty (v : Valuation) : v.Extends .empty := by
  intro l hl
  cases hl

theorem Valuation.extends_append_iff {v : Valuation} {a b : Assignment} {l : Literal}
    (h : b.toList = a.toList ++ [l]) : v.Extends b ↔ v.Extends a ∧ l.eval v = true := by
  simp only [Extends, h, List.forall_mem_append, List.forall_mem_singleton]

/-- Forcing a literal of an unassigned symbol contradicts no assigned literal. -/
theorem Valuation.Extends.force {v : Valuation} {a : Assignment} {l : Literal} (hv : v.Extends a)
    (fresh : l.symbol ∉ a.symbols) : (v.force l).Extends a := by
  intro k hk
  rw [Literal.eval_force_of_symbol_ne v]
  · exact hv k hk
  · intro same
    exact fresh (same ▸ Assignment.symbol_mem_symbols hk)

/-- The valuation of an assignment: its values, and true for every other symbol. -/
def Assignment.valuation (a : Assignment) : Valuation := fun s => (a.value? s).getD true

theorem Assignment.extends_valuation (a : Assignment) : a.valuation.Extends a := by
  intro l hl
  have found := (a.find?_eq_some_iff l.symbol l).mpr ⟨hl, rfl⟩
  simp [Literal.eval, valuation, value?, found]

theorem Clause.isSatisfied_iff {a : Assignment} {c : Clause} :
    c.isSatisfied a = true ↔ ∃ l ∈ c.literals, l ∈ a.toList := by
  simp [isSatisfied, Assignment.holds_iff]

theorem Clause.isFalsified_iff {a : Assignment} {c : Clause} :
    c.isFalsified a = true ↔ ∀ l ∈ c.literals, l.opposite ∈ a.toList := by
  simp [isFalsified, Assignment.refutes_iff]

namespace Cnf

variable {cnf : Cnf} {a : Assignment} {v : Valuation}

theorem allSatisfied_iff :
    allSatisfied cnf a = true ↔ ∀ c ∈ cnf, ∃ l ∈ c.literals, l ∈ a.toList := by
  simp only [allSatisfied, List.all_eq_true, Clause.isSatisfied_iff]

theorem anyFalsified_iff :
    anyFalsified cnf a = true ↔ ∃ c ∈ cnf, ∀ l ∈ c.literals, l.opposite ∈ a.toList := by
  simp only [anyFalsified, List.any_eq_true, Clause.isFalsified_iff]

/-- Satisfied clauses are true under every extension of the assignment. -/
theorem eval_of_allSatisfied (hv : v.Extends a) (h : allSatisfied cnf a = true) :
    Cnf.eval v cnf = true := by
  rw [allSatisfied_iff] at h
  rw [eval_eq_true_iff]
  intro c hc
  obtain ⟨l, hl, held⟩ := h c hc
  exact ⟨l, hl, hv l held⟩

/-- With a falsified clause no extension of the assignment makes all clauses true. -/
theorem eval_of_anyFalsified (hv : v.Extends a) (h : anyFalsified cnf a = true) :
    Cnf.eval v cnf = false := by
  obtain ⟨c, hc, hfalse⟩ := anyFalsified_iff.mp h
  rw [← Bool.not_eq_true, eval_eq_true_iff]
  intro htrue
  obtain ⟨l, hl, hlv⟩ := htrue c hc
  have hopp := hv _ (hfalse l hl)
  rw [Literal.eval_opposite, hlv] at hopp
  cases hopp

/-- An assignment that satisfies all clauses shows that they are satisfiable. -/
theorem satisfiable_of_allSatisfied (h : allSatisfied cnf a = true) : cnf.Satisfiable :=
  ⟨a.valuation, eval_of_allSatisfied a.extends_valuation h⟩

/-- An assignment of all clause symbols satisfies every clause or falsifies one. -/
theorem allSatisfied_or_anyFalsified (total : ∀ c ∈ cnf, ∀ l ∈ c.literals, l.symbol ∈ a.symbols) :
    allSatisfied cnf a = true ∨ anyFalsified cnf a = true := by
  cases hsat : allSatisfied cnf a with
  | true => exact Or.inl rfl
  | false =>
    obtain ⟨c, hc, hunsat⟩ := List.all_eq_false.mp hsat
    refine Or.inr (anyFalsified_iff.mpr ⟨c, hc, fun l hl => ?_⟩)
    rcases Assignment.mem_or_opposite_mem (total c hc l hl) with held | opposed
    · exact absurd (Clause.isSatisfied_iff.mpr ⟨l, hl, held⟩) hunsat
    · exact opposed

/-- Under an assignment of all clause symbols there is a first falsified clause unless all clauses
are satisfied. -/
theorem exists_firstFalsified (total : ∀ c ∈ cnf, ∀ l ∈ c.literals, l.symbol ∈ a.symbols)
    (unsatisfied : allSatisfied cnf a = false) : ∃ c, firstFalsified? cnf a = some c := by
  apply Option.isSome_iff_exists.mp
  rw [firstFalsified?_isSome]
  exact (allSatisfied_or_anyFalsified total).resolve_left (by simp [unsatisfied])

/-- No clause is both satisfied and falsified. -/
theorem anyFalsified_of_allSatisfied (h : allSatisfied cnf a = true) :
    anyFalsified cnf a = false := by
  rw [← Bool.not_eq_true, anyFalsified_iff]
  rintro ⟨c, hc, falsified⟩
  obtain ⟨l, hl, held⟩ := allSatisfied_iff.mp h c hc
  exact Assignment.opposite_notMem held (falsified l hl)

/-- A falsified clause is not satisfied. -/
theorem allSatisfied_of_firstFalsified {c : Clause} (h : firstFalsified? cnf a = some c) :
    allSatisfied cnf a = false := by
  rw [← Bool.not_eq_true]
  intro satisfied
  have found := firstFalsified?_isSome cnf a
  rw [h, anyFalsified_of_allSatisfied satisfied] at found
  cases found

end Cnf

/-- An assignment of exactly the given symbols that holds a literal of every clause. -/
structure Assignment.IsModel (a : Assignment) (cnf : Cnf) (symbols : List Symbol) : Prop where
  assigns : a.symbols.Perm symbols
  satisfies : ∀ c ∈ cnf, ∃ l ∈ c.literals, l ∈ a.toList

theorem Assignment.isModel_iff {a : Assignment} {cnf : Cnf} {symbols : List Symbol} :
    a.IsModel cnf symbols ↔
      a.symbols.Perm symbols ∧ ∀ c ∈ cnf, ∃ l ∈ c.literals, l ∈ a.toList :=
  ⟨fun h => ⟨h.assigns, h.satisfies⟩, fun h => ⟨h.1, h.2⟩⟩

theorem Assignment.IsModel.satisfiable {a : Assignment} {cnf : Cnf} {symbols : List Symbol}
    (h : a.IsModel cnf symbols) : cnf.Satisfiable :=
  Cnf.satisfiable_of_allSatisfied (Cnf.allSatisfied_iff.mpr h.satisfies)

end CnfSearch

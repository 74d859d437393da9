import CnfSearch.Problem.Basic
import CnfSearch.Proofs.Model.Values
import Mathlib.Data.List.Perm.Subperm

set_option autoImplicit false

/-!
# Models of a problem

The check of a model compares the number of assigned symbols with the number of declared ones and
looks up each declared symbol. An assignment gives no symbol two values and a problem declares none
twice, so by counting nothing else is assigned (`Assignment.symbols_perm_iff`): the check accepts
exactly the models (`Problem.verify_iff_isModel`, `verify_accepts_models`). A model that was
assigned in the order of the declared symbols has one written form (`Problem.formatModel_eq_text`).
-/

namespace CnfSearch

/-- As many symbols as are listed, with all the listed ones among them, are the listed ones. -/
theorem Assignment.symbols_perm_iff {a : Assignment} {symbols : List Symbol}
    (distinct : symbols.Nodup) : a.symbols.Perm symbols ↔
      a.size = symbols.length ∧ ∀ s ∈ symbols, a.isAssigned s = true := by
  have length : a.symbols.length = a.size := by
    rw [size_eq_length_toList, Assignment.symbols, List.length_map]
  constructor
  · intro same
    refine ⟨length.symm.trans same.length_eq, fun s hs => ?_⟩
    exact isAssigned_iff_mem_symbols.mpr (same.mem_iff.mpr hs)
  · rintro ⟨count, assigned⟩
    have listed : symbols ⊆ a.symbols := fun s hs => isAssigned_iff_mem_symbols.mp (assigned s hs)
    have few : a.symbols.length ≤ symbols.length := Nat.le_of_eq (length.trans count)
    exact ((distinct.subperm listed).perm_of_length_le few).symm

/-- The check accepts an assignment exactly if it is a model. -/
theorem Problem.verify_iff_isModel {p : Problem} {a : Assignment} :
    p.verify a = true ↔ a.IsModel p.clauses p.symbols := by
  rw [verify, Bool.and_eq_true, Bool.and_eq_true, beq_iff_eq, List.all_eq_true,
    ← Assignment.symbols_perm_iff p.distinct, Cnf.allSatisfied_iff, Assignment.isModel_iff]

/-- In the order of the declared symbols a model is written as it was assigned. -/
theorem Problem.formatModel_eq_text {p : Problem} {a : Assignment}
    (ordered : a.symbols = p.symbols) : p.formatModel a = a.text := by
  rw [formatModel, ← ordered, Assignment.inOrder_symbols, Assignment.text]

/-- The check of a problem accepts an assignment exactly if the assigned symbols are the declared
ones, none missing and none more, and every clause has a literal that the assignment makes true. -/
theorem verify_accepts_models (p : Problem) (a : Assignment) :
    p.verify a = true ↔
      (∀ s, s ∈ a.symbols ↔ s ∈ p.symbols) ∧
        ∀ c ∈ p.clauses, ∃ l ∈ c.literals, a.eval? l = some true := by
  have sameSymbols : a.symbols.Perm p.symbols ↔ ∀ s, s ∈ a.symbols ↔ s ∈ p.symbols :=
    List.perm_ext_iff_of_nodup a.nodup_symbols p.distinct
  have held : ∀ l, l ∈ a.toList ↔ a.eval? l = some true := by
    intro l
    rw [← a.holds_iff, Assignment.holds, beq_iff_eq]
  rw [Problem.verify_iff_isModel, Assignment.isModel_iff, sameSymbols]
  simp only [held]

end CnfSearch

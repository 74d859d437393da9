import CnfSearch.Proofs.Formula.Renaming
import CnfSearch.Proofs.Model.Meaning

set_option autoImplicit false

/-!
# Assignments under a renaming

An assignment renames another one if it has the renamed literals in the same order; what the two
keep in their indices may differ. Under an injective renaming they give the same values, judge
clauses alike and grow and flip alike. Computations that can fault are compared by `Parallel`: both
succeed with related results, or both fail with the same fault.
-/

namespace CnfSearch

/-- The renamed literals, in the same order. -/
def Assignment.Renames (ρ : Symbol → Symbol) (a b : Assignment) : Prop :=
  b.toList = a.toList.map (Literal.rename ρ)

/-- Two computations give related results, or stop with one fault up to the renaming. -/
inductive Parallel {α β : Type} (ρ : Symbol → Symbol) (R : α → β → Prop) :
    Except Fault α → Except Fault β → Prop where
  | ok {x : α} {y : β} (related : R x y) : Parallel ρ R (.ok x) (.ok y)
  | error (fault : Fault) : Parallel ρ R (.error fault) (.error (fault.rename ρ))

/-- Two answers show one model up to the renaming, or give one failure up to the renaming. -/
inductive RenamedAnswer (ρ : Symbol → Symbol) : Answer → Answer → Prop where
  | model {a b : Assignment} (renames : a.Renames ρ b) : RenamedAnswer ρ (.ok a) (.ok b)
  | failure (failure : Failure) : RenamedAnswer ρ (.error failure) (.error (failure.rename ρ))

variable {ρ : Symbol → Symbol}

theorem Parallel.ok_or_error {α β : Type} {R : α → β → Prop} {x : Except Fault α}
    {y : Except Fault β} (h : Parallel ρ R x y) :
    (∃ a b, x = .ok a ∧ y = .ok b ∧ R a b) ∨
      ∃ fault, x = .error fault ∧ y = .error (fault.rename ρ) := by
  cases h with
  | ok related => exact Or.inl ⟨_, _, rfl, rfl, related⟩
  | error fault => exact Or.inr ⟨fault, rfl, rfl⟩

namespace Assignment

variable {a b : Assignment}

theorem renames_empty : Renames ρ empty empty := rfl

theorem Renames.symbols (h : a.Renames ρ b) : b.symbols = a.symbols.map ρ := by
  rw [Assignment.symbols, Assignment.symbols, h, List.map_map, List.map_map]
  rfl

section Injective

variable (h : a.Renames ρ b) (injective : Function.Injective ρ)

include h injective

theorem Renames.mem_iff (l : Literal) : l.rename ρ ∈ b.toList ↔ l ∈ a.toList := by
  rw [h]
  exact List.mem_map_of_injective (Literal.rename_injective injective)

theorem Renames.holds (l : Literal) : b.holds (l.rename ρ) = a.holds l := by
  rw [Bool.eq_iff_iff, holds_iff, holds_iff]
  exact h.mem_iff injective l

theorem Renames.refutes (l : Literal) : b.refutes (l.rename ρ) = a.refutes l := by
  rw [Bool.eq_iff_iff, refutes_iff, refutes_iff, Literal.opposite_rename]
  exact h.mem_iff injective l.opposite

theorem Renames.isAssigned (s : Symbol) : b.isAssigned (ρ s) = a.isAssigned s := by
  rw [Bool.eq_iff_iff, isAssigned_iff_mem_symbols, isAssigned_iff_mem_symbols, h.symbols]
  exact List.mem_map_of_injective injective

/-- The renamed literal can be assigned exactly if the literal can. -/
theorem Renames.assign (l : Literal) :
    Parallel ρ (Renames ρ) (a.assign l) (b.assign (l.rename ρ)) := by
  have same : b.isAssigned (l.rename ρ).symbol = a.isAssigned l.symbol :=
    h.isAssigned injective l.symbol
  cases hassigned : a.isAssigned l.symbol with
  | true =>
    rw [assign_eq_error_iff.mpr ⟨isAssigned_iff_mem_symbols.mp hassigned, rfl⟩,
      assign_eq_error_iff.mpr ⟨isAssigned_iff_mem_symbols.mp (same.trans hassigned), rfl⟩]
    exact .error (.reassigned l.symbol)
  | false =>
    rw [assign_eq_ok_iff.mpr ⟨hassigned, rfl⟩, assign_eq_ok_iff.mpr ⟨same.trans hassigned, rfl⟩]
    refine .ok ?_
    rw [Renames, toList_extend, toList_extend, h, List.map_append]
    rfl

theorem Renames.flip (s : Symbol) : (a.flip s).Renames ρ (b.flip (ρ s)) := by
  rw [Renames, toList_flip, toList_flip, h, List.map_map, List.map_map]
  apply List.map_congr_left
  intro l _
  have same : (l.rename ρ).symbol = ρ s ↔ l.symbol = s := injective.eq_iff
  simp only [Function.comp_apply, same]
  split
  · exact l.opposite_rename
  · rfl

end Injective

/-- Renamed literals can be assigned one after another exactly if the literals can. -/
theorem Renames.assignAll (injective : Function.Injective ρ) (h : a.Renames ρ b)
    (ls : List Literal) :
    Parallel ρ (Renames ρ) (a.assignAll ls) (b.assignAll (ls.map (Literal.rename ρ))) := by
  induction ls generalizing a b with
  | nil => exact .ok h
  | cons l ls ih =>
    rw [List.map_cons, Assignment.assignAll, Assignment.assignAll]
    rcases (h.assign injective l).ok_or_error with
      ⟨a', b', ha, hb, related⟩ | ⟨fault, ha, hb⟩
    · rw [ha, hb]
      exact ih related
    · rw [ha, hb]
      exact .error fault

end Assignment

/-! ## Clauses under renamed assignments -/

section Clauses

variable {a b : Assignment} (h : a.Renames ρ b) (injective : Function.Injective ρ)

include h injective

theorem Clause.isSatisfied_rename (c : Clause) :
    (c.rename ρ).isSatisfied b = c.isSatisfied a := by
  rw [isSatisfied, isSatisfied, literals_rename, List.any_map]
  exact List.any_congr rfl (h.holds injective)

theorem Clause.isFalsified_rename (c : Clause) :
    (c.rename ρ).isFalsified b = c.isFalsified a := by
  rw [isFalsified, isFalsified, literals_rename, List.all_map]
  exact List.all_congr rfl (h.refutes injective)

theorem Cnf.allSatisfied_rename (cnf : Cnf) :
    allSatisfied (rename ρ cnf) b = allSatisfied cnf a := by
  rw [allSatisfied, allSatisfied, rename, List.all_map]
  exact List.all_congr rfl (Clause.isSatisfied_rename h injective)

theorem Cnf.anyFalsified_rename (cnf : Cnf) :
    anyFalsified (rename ρ cnf) b = anyFalsified cnf a := by
  rw [anyFalsified, anyFalsified, rename, List.any_map]
  exact List.any_congr rfl (Clause.isFalsified_rename h injective)

theorem Cnf.firstFalsified?_rename (cnf : Cnf) :
    firstFalsified? (rename ρ cnf) b = (firstFalsified? cnf a).map (Clause.rename ρ) := by
  rw [firstFalsified?, firstFalsified?, rename, List.find?_map]
  congr 2
  funext c
  exact c.isFalsified_rename h injective

end Clauses

end CnfSearch

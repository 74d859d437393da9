import CnfSearch.Problem.Basic
import CnfSearch.Proofs.Model.Values
import Mathlib.Data.List.Perm.Subperm
import Mathlib.Data.List.Sort

set_option autoImplicit false

/-!
# Equality of assignments

Two assignments are compared by their sizes and by looking up the literals of the first in the
second. Since neither has a symbol twice, that is to say that their literals are the same up to
their order (`Assignment.beq_iff_perm`), and that they give the same value to every symbol
(`Assignment.value?_eq_iff_perm`). So `==` is an equivalence relation, and nothing that is asked of
an assignment tells equal ones apart but their order: `equality_extensional`.
-/

namespace CnfSearch

namespace Assignment

variable {a b : Assignment}

theorem nodup_toList (a : Assignment) : a.toList.Nodup := a.nodup_symbols.of_map

/-- Equal assignments have the same literals, up to their order. -/
theorem beq_iff_perm : (a == b) = true ↔ a.toList.Perm b.toList := by
  have compared : (a == b) = true ↔
      a.toList.length = b.toList.length ∧ ∀ l ∈ a.toList, l ∈ b.toList := by
    change (a.size == b.size && a.toList.all b.holds) = true ↔ _
    simp only [Bool.and_eq_true, beq_iff_eq, List.all_eq_true, holds_iff, size_eq_length_toList]
  rw [compared]
  constructor
  · rintro ⟨length, held⟩
    -- As many distinct literals as the other list has, all of them in it, leave out none.
    exact (a.nodup_toList.subperm held).perm_of_length_le (Nat.le_of_eq length.symm)
  · intro same
    exact ⟨same.length_eq, fun l hl => same.mem_iff.mp hl⟩

/-- Assignments give the same values exactly if they have the same literals, up to their order. -/
theorem value?_eq_iff_perm : a.value? = b.value? ↔ a.toList.Perm b.toList := by
  rw [List.perm_ext_iff_of_nodup a.nodup_toList b.nodup_toList]
  constructor
  · rintro same ⟨s, value⟩
    rw [← value?_eq_some_iff, ← value?_eq_some_iff, same]
  · intro same
    funext s
    refine Option.ext fun value => ?_
    rw [value?_eq_some_iff, value?_eq_some_iff]
    exact same _

instance : EquivBEq Assignment where
  rfl := beq_iff_perm.mpr (.refl _)
  symm h := beq_iff_perm.mpr (beq_iff_perm.mp h).symm
  trans h k := beq_iff_perm.mpr ((beq_iff_perm.mp h).trans (beq_iff_perm.mp k))

/-- The values of exactly the listed symbols, given in the order of the list, make the assignment
that they were taken from. -/
theorem exists_beq_of_valuation {symbols : List Symbol} (distinct : symbols.Nodup)
    (assigns : a.symbols.Perm symbols) :
    ∃ b, ofLiterals (a.valuation.literals symbols) = .ok b ∧ b.symbols = symbols ∧
      (b == a) = true := by
  obtain ⟨b, made, values⟩ := exists_of_valuation distinct a.valuation
  refine ⟨b, made, symbols_of_valuation values, ?_⟩
  rw [beq_iff_perm, values]
  exact (toList_perm_literals assigns).symm

/-! ## What equal assignments have in common -/

/-- The numbers of the true symbols are sorted, so it does not matter in which order they come. -/
theorem trueVariables_congr (same : a.toList.Perm b.toList) :
    a.trueVariables = b.trueVariables := by
  have numbers := (same.filter Literal.positive).filterMap fun l => Text.signed32? l.symbol.toList
  have sorted : a.trueVariables.Perm b.trueVariables := by
    rw [trueVariables, trueVariables]
    exact (List.mergeSort_perm _ _).trans (numbers.trans (List.mergeSort_perm _ _).symm)
  exact sorted.eq_of_sortedLE List.sortedLE_mergeSort List.sortedLE_mergeSort

end Assignment

theorem Problem.verify_congr {a b : Assignment} (p : Problem) (same : a.value? = b.value?) :
    p.verify a = p.verify b := by
  have size : a.size = b.size := by
    rw [Assignment.size_eq_length_toList, Assignment.size_eq_length_toList]
    exact (Assignment.value?_eq_iff_perm.mp same).length_eq
  rw [verify, verify, size, Assignment.isAssigned_congr same, Cnf.allSatisfied_congr same]

theorem Problem.formatModel_congr {a b : Assignment} (p : Problem) (same : a.value? = b.value?) :
    p.formatModel a = p.formatModel b := by
  rw [formatModel, formatModel, Assignment.inOrder_congr same]

/-- Assignments are equal exactly if they give the same value to every symbol, and exactly if their
literals are permutations of each other. So equality is an equivalence relation, and equal
assignments judge literals and clauses alike, pass the same checks, and are written alike in the
order of the symbols, with the same true variables, whatever the order in which they were made. -/
theorem equality_extensional :
    (∀ a b : Assignment,
      ((a == b) = true ↔ ∀ s, a.value? s = b.value? s) ∧
      ((a == b) = true ↔ a.toList.Perm b.toList)) ∧
    (Equivalence fun a b : Assignment => (a == b) = true) ∧
    ∀ a b : Assignment, (a == b) = true →
      (∀ l, a.eval? l = b.eval? l) ∧
      (∀ cnf, Cnf.allSatisfied cnf a = Cnf.allSatisfied cnf b ∧
        Cnf.firstFalsified? cnf a = Cnf.firstFalsified? cnf b) ∧
      (∀ p : Problem, p.verify a = p.verify b ∧ p.formatModel a = p.formatModel b) ∧
      a.trueVariables = b.trueVariables := by
  refine ⟨fun a b => ⟨?_, Assignment.beq_iff_perm⟩, ⟨?_, ?_, ?_⟩, fun a b equal => ?_⟩
  · rw [Assignment.beq_iff_perm, ← Assignment.value?_eq_iff_perm, funext_iff]
  · exact fun a => BEq.rfl
  · exact fun h => BEq.symm h
  · exact fun h k => BEq.trans h k
  · have permuted := Assignment.beq_iff_perm.mp equal
    have same := Assignment.value?_eq_iff_perm.mpr permuted
    refine ⟨fun l => ?_, fun cnf => ⟨?_, ?_⟩, fun p => ⟨?_, ?_⟩, ?_⟩
    · rw [Assignment.eval?_congr same]
    · exact Cnf.allSatisfied_congr same cnf
    · exact Cnf.firstFalsified?_congr same cnf
    · exact p.verify_congr same
    · exact p.formatModel_congr same
    · exact Assignment.trueVariables_congr permuted

/-- Three values that are given in two orders make equal assignments. -/
theorem equality_extensional_reordered :
    ∃ a b : Assignment, a.toList = [⟨"2", true⟩, ⟨"1", false⟩, ⟨"10", true⟩] ∧
      b.toList = [⟨"10", true⟩, ⟨"2", true⟩, ⟨"1", false⟩] ∧ (a == b) = true ∧
      a.trueVariables = b.trueVariables ∧ ∀ p : Problem, p.formatModel a = p.formatModel b := by
  obtain ⟨a, -, ha⟩ :=
    Assignment.exists_ofLiterals [⟨"2", true⟩, ⟨"1", false⟩, ⟨"10", true⟩] (by decide)
  obtain ⟨b, -, hb⟩ :=
    Assignment.exists_ofLiterals [⟨"10", true⟩, ⟨"2", true⟩, ⟨"1", false⟩] (by decide)
  obtain ⟨compared, -, alike⟩ := equality_extensional
  have permuted : a.toList.Perm b.toList := by
    rw [ha, hb]
    decide
  have equal : (a == b) = true := (compared a b).2.mpr permuted
  obtain ⟨-, -, checks, numbers⟩ := alike a b equal
  exact ⟨a, b, ha, hb, equal, numbers, fun p => (checks p).2⟩

end CnfSearch

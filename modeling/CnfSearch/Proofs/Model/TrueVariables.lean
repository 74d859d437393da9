import CnfSearch.Proofs.Model.Equality
import CnfSearch.Proofs.Problem.Numbered

set_option autoImplicit false

/-!
# The true variables of a model

A model of the numbers up to a count is determined by those of its symbols that are true. Below the
bound of signed numerals each symbol is read as its number (`Text.signed32?_repr`), so the true
variables are the numbers whose symbols are true, in ascending order
(`Assignment.trueVariables_eq`), and the model that they describe is the one that they were taken
from: `true_variables_determine_model`.
-/

namespace CnfSearch

/-- A numeral without sign is read as its value if that has 31 bits. -/
theorem Text.signed32?_repr {n : Nat} (bound : n < signed32Bound) :
    signed32? n.repr.toList = some (n : Int) := by
  have numeral := numeral_toDigits n
  -- The digits open with neither sign, so only the third case of the reader is left.
  rw [Nat.toList_repr, signed32?.eq_def]
  split
  next rest h =>
    rw [h] at numeral
    exact absurd rfl (numeral.head_ne (by decide))
  next rest h =>
    rw [h] at numeral
    exact absurd rfl (numeral.head_ne (by decide))
  next => rw [natural?_toDigits, Option.bind_some, if_pos bound]

/-! ## Numbers that are made true -/

namespace Valuation

/-- The numbers up to a count whose symbols are true, in ascending order. -/
def trueNumbers (v : Valuation) (count : Nat) : List Int :=
  ((List.range' 1 count).filter fun k => v k.repr).map Int.ofNat

variable {v : Valuation} {count : Nat}

theorem ascending_trueNumbers (v : Valuation) (count : Nat) :
    (v.trueNumbers count).Pairwise (· < ·) := by
  rw [trueNumbers, List.pairwise_map]
  have ascending : (List.range' 1 count).Pairwise (· < ·) := List.pairwise_lt_range' 1
  exact (ascending.filter _).imp Int.ofNat_lt.mpr

/-- A number up to the count stands there exactly if its symbol is true. -/
theorem mem_trueNumbers {value : Int} : value ∈ v.trueNumbers count ↔
    1 ≤ value ∧ value ≤ count ∧ v value.natAbs.repr = true := by
  rw [trueNumbers, List.mem_map]
  simp only [List.mem_filter, List.mem_range'_1]
  constructor
  · rintro ⟨k, ⟨range, holds⟩, rfl⟩
    rw [Int.ofNat_eq_natCast]
    exact ⟨by omega, by omega, holds⟩
  · rintro ⟨pos, le, holds⟩
    refine ⟨value.natAbs, ⟨by omega, holds⟩, ?_⟩
    rw [Int.ofNat_eq_natCast]
    omega

/-- The numbers of the true literals, as far as all of them are read, are these numbers. -/
theorem filterMap_literals_numbers (bound : count < Text.signed32Bound) :
    ((v.literals (Problem.numbers count)).filter Literal.positive).filterMap
      (fun l => Text.signed32? l.symbol.toList) = v.trueNumbers count := by
  rw [literals, Problem.numbers, List.map_map, List.filter_map, List.filterMap_map, trueNumbers,
    ← List.filterMap_eq_map]
  apply List.filterMap_congr
  intro k hk
  rw [List.mem_filter, List.mem_range'_1] at hk
  exact Text.signed32?_repr (by omega)

end Valuation

/-- The literals of the numbers up to a count, of which those on a list are true. -/
def Literal.ofTrueVariables (count : Nat) (listed : List Int) : List Literal :=
  (List.range' 1 count).map fun k => ofVariable k (decide ((k : Int) ∈ listed))

/-- The true numbers tell the value of every number up to the count. -/
theorem Literal.ofTrueVariables_trueNumbers (v : Valuation) (count : Nat) :
    ofTrueVariables count (v.trueNumbers count) = v.literals (Problem.numbers count) := by
  rw [ofTrueVariables, Valuation.literals, Problem.numbers, List.map_map]
  apply List.map_congr_left
  intro k hk
  rw [List.mem_range'_1] at hk
  have listed : (k : Int) ∈ v.trueNumbers count ↔ v k.repr = true := by
    rw [Valuation.mem_trueNumbers, Int.natAbs_natCast]
    constructor
    · rintro ⟨-, -, holds⟩
      exact holds
    · intro holds
      exact ⟨by omega, by omega, holds⟩
  simp only [listed, Function.comp_apply, Bool.decide_eq_true]
  rfl

/-! ## Models of numbers -/

namespace Assignment

/-- Flips keep the assigned symbols and their order. -/
theorem symbols_foldl_flip (a : Assignment) (flips : List Symbol) :
    (flips.foldl flip a).symbols = a.symbols := by
  induction flips generalizing a with
  | nil => rfl
  | cons s rest ih => rw [List.foldl_cons, ih, symbols_flip]

variable {a : Assignment} {n : Nat}

/-- The true variables are the numbers whose symbols are true, in ascending order. -/
theorem trueVariables_eq (bound : n < Text.signed32Bound)
    (assigns : a.symbols.Perm (Problem.numbers n)) :
    a.trueVariables = a.valuation.trueNumbers n := by
  -- Both lists are sorted, so it suffices that they have the same members.
  have ascending := (a.valuation.ascending_trueNumbers n).sortedLT.sortedLE
  apply List.Perm.eq_of_sortedLE List.sortedLE_mergeSort ascending
  apply (List.mergeSort_perm _ _).trans
  rw [← Valuation.filterMap_literals_numbers bound]
  exact ((toList_perm_literals assigns).filter Literal.positive).filterMap _

/-- A listed number is one up to the count whose symbol has the value true. -/
theorem mem_trueVariables_iff (bound : n < Text.signed32Bound)
    (assigns : a.symbols.Perm (Problem.numbers n)) {value : Int} :
    value ∈ a.trueVariables ↔
      1 ≤ value ∧ value ≤ n ∧ a.value? value.natAbs.repr = some true := by
  rw [trueVariables_eq bound assigns, Valuation.mem_trueNumbers]
  refine and_congr_right fun pos => and_congr_right fun le => ?_
  have assigned : value.natAbs.repr ∈ a.symbols := by
    rw [assigns.mem_iff, Problem.repr_mem_numbers]
    omega
  rw [value?_eq_some_valuation assigned, Option.some.injEq]

/-- The model that the true variables describe is the one that they were taken from. -/
theorem exists_ofTrueVariables (bound : n < Text.signed32Bound)
    (assigns : a.symbols.Perm (Problem.numbers n)) :
    ∃ b, ofLiterals (Literal.ofTrueVariables n a.trueVariables) = .ok b ∧ (b == a) = true := by
  rw [trueVariables_eq bound assigns, Literal.ofTrueVariables_trueNumbers]
  obtain ⟨b, made, -, equal⟩ := exists_beq_of_valuation (Problem.nodup_numbers n) assigns
  exact ⟨b, made, equal⟩

end Assignment

/-- An assignment of exactly the numbers up to a count below the bound of signed numerals, made in
any order and flipped any number of times, is told by its true variables: they ascend strictly, they
are the numbers whose symbols then are true, and the assignment in which just these are true is
equal to it. -/
theorem true_variables_determine_model {n : Nat} (bound : n < Text.signed32Bound) {a : Assignment}
    (assigns : a.symbols.Perm (Problem.numbers n)) (flips : List Symbol) :
    let m := flips.foldl Assignment.flip a
    m.trueVariables.Pairwise (· < ·) ∧
    (∀ v : Int, v ∈ m.trueVariables ↔
      1 ≤ v ∧ v ≤ n ∧ m.value? v.natAbs.repr = some true) ∧
    ∃ b, Assignment.ofLiterals (Literal.ofTrueVariables n m.trueVariables) = .ok b ∧
      (b == m) = true := by
  intro m
  -- What is said of an assignment of these symbols also holds after the flips.
  have same : m.symbols.Perm (Problem.numbers n) := by
    rw [a.symbols_foldl_flip flips]
    exact assigns
  refine ⟨?_, ?_, ?_⟩
  · rw [Assignment.trueVariables_eq bound same]
    exact m.valuation.ascending_trueNumbers n
  · exact fun v => Assignment.mem_trueVariables_iff bound same
  · exact Assignment.exists_ofTrueVariables bound same

/-- Three numbers in another order than their own, one of them flipped three times. -/
theorem true_variables_determine_model_flipped :
    3 < Text.signed32Bound ∧
    ∃ a : Assignment, a.toList = [⟨"3", true⟩, ⟨"1", false⟩, ⟨"2", true⟩] ∧
      a.symbols.Perm (Problem.numbers 3) ∧
      let m := ["1", "2", "1", "1"].foldl Assignment.flip a
      m.toList = [⟨"3", true⟩, ⟨"1", true⟩, ⟨"2", false⟩] ∧
      1 ∈ m.trueVariables ∧ 2 ∉ m.trueVariables ∧ 3 ∈ m.trueVariables ∧
      m.trueVariables.Pairwise (· < ·) ∧
      ∃ b, Assignment.ofLiterals (Literal.ofTrueVariables 3 m.trueVariables) = .ok b ∧
        (b == m) = true := by
  have bound : 3 < Text.signed32Bound := by decide
  obtain ⟨a, -, ha⟩ :=
    Assignment.exists_ofLiterals [⟨"3", true⟩, ⟨"1", false⟩, ⟨"2", true⟩] (by decide)
  have assigns : a.symbols.Perm (Problem.numbers 3) := by
    rw [Assignment.symbols, ha]
    decide
  refine ⟨bound, a, ha, assigns, ?_⟩
  intro m
  have flipped : m.toList = [⟨"3", true⟩, ⟨"1", true⟩, ⟨"2", false⟩] := by
    simp only [m, List.foldl_cons, List.foldl_nil, Assignment.toList_flip, ha]
    decide
  have values : ∀ l ∈ m.toList, m.value? l.symbol = some l.positive :=
    fun l hl => Assignment.value?_of_mem hl
  simp only [flipped, List.forall_mem_cons] at values
  obtain ⟨third, first, second, -⟩ := values
  obtain ⟨ascending, listed, rebuilt⟩ :=
    true_variables_determine_model bound assigns ["1", "2", "1", "1"]
  refine ⟨flipped, ?_, ?_, ?_, ascending, rebuilt⟩
  · exact (listed 1).mpr ⟨by decide, by decide, first⟩
  · intro htwo
    obtain ⟨-, -, holds⟩ := (listed 2).mp htwo
    have opposed : some false = some true := second.symm.trans holds
    cases opposed
  · exact (listed 3).mpr ⟨by decide, by decide, third⟩

end CnfSearch

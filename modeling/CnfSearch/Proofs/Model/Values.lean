import CnfSearch.Proofs.Model.Bindings
import CnfSearch.Proofs.Model.Meaning
import Mathlib.Data.List.Basic

set_option autoImplicit false

/-!
# The values of an assignment

An assignment has a value for each of its symbols and for no other one, and a flip turns around one
of them (`Assignment.value?_flip`). Which clauses are satisfied or falsified, and what comes of a
flip, depends on these values alone, not on the order in which the symbols got them:
`Cnf.allSatisfied_congr`, `Cnf.firstFalsified?_congr`, `Assignment.flip_congr`. A single clause
depends on the values of its own symbols (`Clause.isSatisfied_eq_of_values`). Any values can be
given to distinct symbols (`Assignment.exists_of_valuation`), and an assignment of exactly these
symbols consists of their values (`Assignment.toList_perm_literals`).
-/

namespace CnfSearch

namespace Assignment

theorem value?_eq_some_valuation {a : Assignment} {s : Symbol} (hs : s ∈ a.symbols) :
    a.value? s = some (a.valuation s) := by
  obtain ⟨l, hl, rfl⟩ := List.mem_map.mp hs
  have found := (a.find?_eq_some_iff l.symbol l).mpr ⟨hl, rfl⟩
  simp [valuation, value?, found]

theorem value?_eq_none {a : Assignment} {s : Symbol} (hs : s ∉ a.symbols) :
    a.value? s = none := by
  cases found : a.find? s with
  | none => simp [value?, found]
  | some l =>
    obtain ⟨hl, rfl⟩ := (a.find?_eq_some_iff s l).mp found
    exact absurd (symbol_mem_symbols hl) hs

theorem value?_eq_some_iff {a : Assignment} {s : Symbol} {value : Bool} :
    a.value? s = some value ↔ (⟨s, value⟩ : Literal) ∈ a.toList := by
  rw [← lookup_bindings, Bindings.lookup_eq_some_iff a.indexed.distinct, mem_bindings]

theorem isAssigned_eq_isSome_value? (a : Assignment) (s : Symbol) :
    a.isAssigned s = (a.value? s).isSome := by
  rw [Bool.eq_iff_iff, isAssigned_iff, Option.isSome_iff_exists]
  simp only [value?_eq_some_iff]
  constructor
  · rintro ⟨l, hl, rfl⟩
    exact ⟨l.positive, hl⟩
  · rintro ⟨value, hl⟩
    exact ⟨_, hl, rfl⟩

/-- In the order in which its symbols were assigned, an assignment lists all its literals. -/
theorem inOrder_symbols (a : Assignment) : a.inOrder a.symbols = a.toList := by
  rw [inOrder, Assignment.symbols, List.filterMap_map]
  have found : ∀ l ∈ a.toList, (a.find? ∘ Literal.symbol) l = some l :=
    fun l hl => (a.find?_eq_some_iff _ _).mpr ⟨hl, rfl⟩
  rw [List.filterMap_congr found, List.filterMap_some]

/-- A flip turns around the value of its symbol and leaves every other value as it is. -/
theorem value?_flip (a : Assignment) (s t : Symbol) :
    (a.flip s).value? t = if t = s then (a.value? t).map not else a.value? t := by
  rw [← lookup_bindings, bindings_flip, Bindings.lookup_flip, lookup_bindings]

end Assignment

/-! ## Equal values -/

section SymbolValues

variable {a b : Assignment} {c : Clause}
  (same : ∀ l ∈ c.literals, a.value? l.symbol = b.value? l.symbol)

include same

/-- Whether a clause is satisfied depends on the values of its own symbols. -/
theorem Clause.isSatisfied_eq_of_values : c.isSatisfied a = c.isSatisfied b := by
  rw [isSatisfied, isSatisfied, Bool.eq_iff_iff, List.any_eq_true, List.any_eq_true]
  refine exists_congr fun l => and_congr_right fun hl => ?_
  rw [Assignment.holds, Assignment.holds, Assignment.eval?, Assignment.eval?, same l hl]

/-- Whether a clause is falsified depends on the values of its own symbols. -/
theorem Clause.isFalsified_eq_of_values : c.isFalsified a = c.isFalsified b := by
  rw [isFalsified, isFalsified, Bool.eq_iff_iff, List.all_eq_true, List.all_eq_true]
  refine forall_congr' fun l => imp_congr_right fun hl => ?_
  rw [Assignment.refutes, Assignment.refutes, Assignment.eval?, Assignment.eval?, same l hl]

end SymbolValues

section SameValues

variable {a b : Assignment} (same : a.value? = b.value?)

include same

theorem Assignment.eval?_congr : a.eval? = b.eval? := by
  funext l
  rw [eval?, eval?, same]

theorem Assignment.find?_congr : a.find? = b.find? := by
  funext s
  rw [find?_eq_lookup, find?_eq_lookup, lookup_bindings, lookup_bindings, same]

theorem Assignment.isAssigned_congr : a.isAssigned = b.isAssigned := by
  funext s
  rw [isAssigned_eq_isSome_value?, isAssigned_eq_isSome_value?, same]

theorem Assignment.inOrder_congr : a.inOrder = b.inOrder := by
  funext symbols
  rw [inOrder, inOrder, find?_congr same]

theorem Assignment.flip_congr (s : Symbol) : (a.flip s).value? = (b.flip s).value? := by
  funext t
  rw [value?_flip, value?_flip, same]

theorem Clause.isSatisfied_congr (c : Clause) : c.isSatisfied a = c.isSatisfied b :=
  isSatisfied_eq_of_values fun l _ => congrFun same l.symbol

theorem Clause.isFalsified_congr (c : Clause) : c.isFalsified a = c.isFalsified b :=
  isFalsified_eq_of_values fun l _ => congrFun same l.symbol

theorem Cnf.allSatisfied_congr (cnf : Cnf) : allSatisfied cnf a = allSatisfied cnf b := by
  rw [allSatisfied, allSatisfied, funext (Clause.isSatisfied_congr same)]

theorem Cnf.firstFalsified?_congr (cnf : Cnf) : firstFalsified? cnf a = firstFalsified? cnf b := by
  rw [firstFalsified?, firstFalsified?, funext (Clause.isFalsified_congr same)]

end SameValues

/-! ## Assignments of given values -/

/-- The literals of listed symbols that a valuation makes true. -/
def Valuation.literals (v : Valuation) (symbols : List Symbol) : List Literal :=
  symbols.map fun s => ⟨s, v s⟩

theorem Valuation.map_symbol_literals (v : Valuation) (symbols : List Symbol) :
    (v.literals symbols).map Literal.symbol = symbols := by
  rw [literals, List.map_map]
  exact List.map_id _

section Valuations

variable {symbols : List Symbol} {v : Valuation} {a : Assignment}

theorem Assignment.exists_of_valuation (distinct : symbols.Nodup) (v : Valuation) :
    ∃ a, ofLiterals (v.literals symbols) = .ok a ∧ a.toList = v.literals symbols := by
  apply Assignment.exists_ofLiterals
  rw [v.map_symbol_literals]
  exact distinct

theorem Assignment.symbols_of_valuation (values : a.toList = v.literals symbols) :
    a.symbols = symbols := by
  rw [Assignment.symbols, values, v.map_symbol_literals]

theorem Assignment.value?_of_valuation (values : a.toList = v.literals symbols) {s : Symbol}
    (hs : s ∈ symbols) : a.value? s = some (v s) := by
  have held : (⟨s, v s⟩ : Literal) ∈ a.toList := by
    rw [values]
    exact List.mem_map_of_mem hs
  exact Assignment.value?_of_mem held

/-- In the order of symbols that are all assigned, an assignment lists their values. -/
theorem Assignment.inOrder_eq_literals (assigned : ∀ s ∈ symbols, s ∈ a.symbols) :
    a.inOrder symbols = a.valuation.literals symbols := by
  rw [inOrder, Valuation.literals, ← List.filterMap_eq_map]
  apply List.filterMap_congr
  intro s hs
  rw [find?_eq_lookup, lookup_bindings, value?_eq_some_valuation (assigned s hs)]
  rfl

/-- An assignment of exactly the listed symbols consists of their values, in some order. -/
theorem Assignment.toList_perm_literals (assigns : a.symbols.Perm symbols) :
    a.toList.Perm (a.valuation.literals symbols) := by
  have own : a.toList = a.valuation.literals a.symbols := by
    rw [← a.inOrder_symbols]
    exact inOrder_eq_literals fun s hs => hs
  rw [own]
  exact assigns.map _

/-- The values of a valuation that makes all clauses true satisfy them. -/
theorem Cnf.allSatisfied_of_valuation {cnf : Cnf}
    (declared : ∀ c ∈ cnf, ∀ l ∈ c.literals, l.symbol ∈ symbols)
    (values : a.toList = v.literals symbols) (h : Cnf.eval v cnf = true) :
    allSatisfied cnf a = true := by
  rw [eval_eq_true_iff] at h
  rw [allSatisfied_iff]
  intro c hc
  obtain ⟨l, hl, holds⟩ := h c hc
  rw [Literal.eval, beq_iff_eq] at holds
  refine ⟨l, hl, ?_⟩
  rw [values, Valuation.literals, List.mem_map]
  exact ⟨l.symbol, declared c hc l hl, by rw [holds]⟩

end Valuations

end CnfSearch

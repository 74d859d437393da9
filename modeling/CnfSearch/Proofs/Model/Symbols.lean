import CnfSearch.Model.Assignment

set_option autoImplicit false

/-!
# The symbols of an assignment

An assignment grows by one literal at a time and refuses a symbol that it already has. This module
says when growing succeeds (`exists_assign`, `assignAll_cases`) and that of the two literals of an
assigned symbol it holds exactly one (`mem_or_opposite_mem`, `opposite_notMem`). A flip changes no
symbol (`symbols_flip`).
-/

namespace CnfSearch.Assignment

/-- The assigned symbols, in assignment order. -/
def symbols (a : Assignment) : List Symbol := a.toList.map Literal.symbol

@[simp] theorem symbols_empty : empty.symbols = [] := rfl

/-- A literal that is held has its symbol among the assigned ones. -/
theorem symbol_mem_symbols {a : Assignment} {l : Literal} (h : l ∈ a.toList) :
    l.symbol ∈ a.symbols :=
  List.mem_map_of_mem h

theorem isAssigned_iff_mem_symbols {a : Assignment} {s : Symbol} :
    a.isAssigned s = true ↔ s ∈ a.symbols := by
  rw [isAssigned_iff, symbols, List.mem_map]

/-- A symbol has the value that its literal asserts. -/
theorem value?_of_mem {a : Assignment} {l : Literal} (h : l ∈ a.toList) :
    a.value? l.symbol = some l.positive := by
  have found := (a.find?_eq_some_iff l.symbol l).mpr ⟨h, rfl⟩
  simp [value?, found]

theorem opposite_notMem {a : Assignment} {l : Literal} (h : l ∈ a.toList) :
    l.opposite ∉ a.toList := by
  intro hopp
  have found := (a.find?_eq_some_iff l.symbol l).mpr ⟨h, rfl⟩
  have foundOpp := (a.find?_eq_some_iff l.symbol l.opposite).mpr ⟨hopp, rfl⟩
  rw [found, Option.some.injEq] at foundOpp
  exact l.opposite_ne foundOpp.symm

theorem mem_or_opposite_mem {a : Assignment} {l : Literal} (h : l.symbol ∈ a.symbols) :
    l ∈ a.toList ∨ l.opposite ∈ a.toList := by
  obtain ⟨k, hk, hs⟩ := List.mem_map.mp h
  rcases Literal.eq_or_eq_opposite hs with rfl | rfl
  · exact Or.inl hk
  · exact Or.inr hk

/-- A flip keeps the assigned symbols and their order. -/
theorem symbols_flip (a : Assignment) (s : Symbol) : (a.flip s).symbols = a.symbols := by
  rw [symbols, symbols, toList_flip, List.map_map]
  apply List.map_congr_left
  intro l _
  rw [Function.comp_apply]
  split
  · exact l.symbol_opposite
  · rfl

/-- A fresh symbol can be assigned, and its literal comes last. -/
theorem exists_assign {a : Assignment} {l : Literal} (fresh : l.symbol ∉ a.symbols) :
    ∃ b, a.assign l = .ok b ∧ b.toList = a.toList ++ [l] := by
  have unassigned : a.isAssigned l.symbol = false := by
    rw [← Bool.not_eq_true, isAssigned_iff_mem_symbols]
    exact fresh
  exact ⟨a.extend l unassigned, assign_eq_ok_iff.mpr ⟨unassigned, rfl⟩, by simp⟩

/-- Only a symbol that has a value is refused, and the fault names it. -/
theorem assign_eq_error_iff {a : Assignment} {l : Literal} {fault : Fault} :
    a.assign l = .error fault ↔ l.symbol ∈ a.symbols ∧ fault = .reassigned l.symbol := by
  rw [← isAssigned_iff_mem_symbols, assign]
  split
  next assigned => simp [assigned, eq_comm]
  next unassigned => simp [unassigned]

/-- Literals are assigned one after another, up to the first whose symbol has a value by then. -/
theorem assignAll_cases (a : Assignment) (ls : List Literal) :
    (∃ b, a.assignAll ls = .ok b ∧ b.toList = a.toList ++ ls) ∨
      ∃ before l after, ls = before ++ l :: after ∧
        (a.symbols ++ before.map Literal.symbol).Nodup ∧
          l.symbol ∈ a.symbols ++ before.map Literal.symbol ∧
            a.assignAll ls = .error (.reassigned l.symbol) := by
  induction ls generalizing a with
  | nil => exact Or.inl ⟨a, rfl, by simp⟩
  | cons l ls ih =>
    by_cases assigned : l.symbol ∈ a.symbols
    · refine Or.inr ⟨[], l, ls, rfl, ?_, ?_, ?_⟩
      · simpa [symbols] using a.nodup_symbols
      · simpa using assigned
      · rw [assignAll, assign_eq_error_iff.mpr ⟨assigned, rfl⟩]
    · -- The symbol of the first literal joins those that the further literals have to avoid.
      obtain ⟨b, hb, hlist⟩ := exists_assign assigned
      have hsymbols : b.symbols = a.symbols ++ [l.symbol] := by simp [symbols, hlist]
      have step : a.assignAll (l :: ls) = b.assignAll ls := by rw [assignAll, hb]
      rcases ih b with ⟨d, hd, hdlist⟩ | ⟨before, k, after, hls, distinct, again, hd⟩
      · exact Or.inl ⟨d, step.trans hd, by simp [hdlist, hlist]⟩
      · refine Or.inr ⟨l :: before, k, after, by rw [hls, List.cons_append], ?_, ?_, step.trans hd⟩
        · simpa [hsymbols] using distinct
        · simpa [hsymbols] using again

/-- Literals of distinct fresh symbols can be assigned one after another. -/
theorem exists_assignAll {a : Assignment} {ls : List Literal}
    (fresh : (a.symbols ++ ls.map Literal.symbol).Nodup) :
    ∃ b, a.assignAll ls = .ok b ∧ b.toList = a.toList ++ ls := by
  rcases a.assignAll_cases ls with assigned | ⟨before, l, after, rfl, -, again, -⟩
  · exact assigned
  · rw [List.map_append, ← List.append_assoc] at fresh
    exact absurd rfl ((List.nodup_append.mp fresh).2.2 _ again _ (by simp))

/-- Literals of distinct symbols make an assignment, in their order. -/
theorem exists_ofLiterals (ls : List Literal) (distinct : (ls.map Literal.symbol).Nodup) :
    ∃ a, ofLiterals ls = .ok a ∧ a.toList = ls :=
  exists_assignAll distinct

end CnfSearch.Assignment

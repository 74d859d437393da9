import CnfSearch.Formula.Occurrences
import CnfSearch.Model.Satisfaction
import CnfSearch.Search.Outcome
import Mathlib.Algebra.Order.BigOperators.Group.List
import Mathlib.Algebra.Order.Group.Nat
import Mathlib.Data.List.Basic
import Mathlib.Data.Set.Operations

set_option autoImplicit false

/-!
# Renaming symbols

A renaming of symbols acts on literals, clauses and clause lists, and on what a search can report.
Under an injective renaming equal literals stay the only equal ones, so that membership, occurrence
counts and the declaration of symbols are unchanged. A renaming that is injective on some symbols
agrees on them with two injective ones that differ everywhere else: `exists_injective_pair`.
-/

namespace CnfSearch

/-! ## The action of a renaming -/

/-- The literal of the renamed symbol, with the same sign. -/
def Literal.rename (ρ : Symbol → Symbol) (l : Literal) : Literal := { l with symbol := ρ l.symbol }

/-- Rename every literal in its place. -/
def Clause.rename (ρ : Symbol → Symbol) (c : Clause) : Clause where
  literals := c.literals.map (Literal.rename ρ)
  nonempty := by simpa using c.nonempty

/-- Rename every clause in its place. -/
def Cnf.rename (ρ : Symbol → Symbol) (cnf : Cnf) : Cnf := cnf.map (Clause.rename ρ)

/-- A failure names the undeclared symbol by its new name. -/
def Failure.rename (ρ : Symbol → Symbol) : Failure → Failure
  | .unsatisfiable => .unsatisfiable
  | .exhausted steps => .exhausted steps
  | .undeclared s => .undeclared (ρ s)

/-- A fault names the reassigned symbol by its new name. -/
def Fault.rename (ρ : Symbol → Symbol) : Fault → Fault
  | .reassigned s => .reassigned (ρ s)
  | .undecided => .undecided
  | .capacity => .capacity

variable {ρ : Symbol → Symbol}

namespace Literal

@[simp] theorem opposite_rename (l : Literal) : (l.rename ρ).opposite = l.opposite.rename ρ := rfl

theorem rename_injective (injective : Function.Injective ρ) :
    Function.Injective (Literal.rename ρ) := by
  rintro ⟨s, p⟩ ⟨t, q⟩ h
  obtain ⟨hsymbol, rfl⟩ := Literal.mk.inj h
  obtain rfl : s = t := injective hsymbol
  rfl

/-- Renamings that agree on a symbol agree on its literals. -/
theorem rename_congr {σ : Symbol → Symbol} {l : Literal} (h : ρ l.symbol = σ l.symbol) :
    l.rename ρ = l.rename σ := by
  rw [rename, rename, h]

end Literal

theorem Clause.literals_rename (c : Clause) :
    (c.rename ρ).literals = c.literals.map (Literal.rename ρ) := rfl

theorem Clause.length_rename (c : Clause) : (c.rename ρ).length = c.length :=
  List.length_map _

theorem Clause.sole?_rename (c : Clause) :
    (c.rename ρ).sole? = c.sole?.map (Literal.rename ρ) := by
  obtain ⟨literals, nonempty⟩ := c
  rw [sole?, sole?, literals_rename]
  cases literals with
  | nil => rfl
  | cons l ls =>
    cases ls with
    | nil => rfl
    | cons k ls => rfl

theorem Cnf.literals_rename (cnf : Cnf) :
    literals (rename ρ cnf) = (literals cnf).map (Literal.rename ρ) := by
  rw [literals, literals, rename, List.flatMap_map, List.map_flatMap]
  rfl

/-- Renamings that agree on the symbols of clauses agree on the clauses. -/
theorem Cnf.rename_congr {σ : Symbol → Symbol} {cnf : Cnf}
    (h : ∀ l ∈ literals cnf, ρ l.symbol = σ l.symbol) : rename ρ cnf = rename σ cnf := by
  refine List.map_congr_left fun c hc => ?_
  rw [Clause.rename, Clause.rename, Clause.mk.injEq]
  refine List.map_congr_left fun l hl => Literal.rename_congr (h l ?_)
  exact List.mem_flatMap.mpr ⟨c, hc, hl⟩

/-! ## Injective renamings -/

section Injective

variable (injective : Function.Injective ρ)

include injective

theorem Clause.contains_rename (c : Clause) (l : Literal) :
    (c.rename ρ).contains (l.rename ρ) = c.contains l := by
  rw [Bool.eq_iff_iff, contains, contains, List.contains_iff_mem, List.contains_iff_mem]
  exact List.mem_map_of_injective (Literal.rename_injective injective)

/-- A literal occurs as often under its new name. -/
theorem Occurrences.count_rename (cnf : Cnf) (l : Literal) :
    (ofCnf (Cnf.rename ρ cnf)).count (l.rename ρ) = (ofCnf cnf).count l := by
  rw [count_ofCnf, count_ofCnf, Cnf.rename, List.countP_map]
  congr 1
  funext c
  exact c.contains_rename injective l

/-- The first undeclared symbol is the same one under its new name. -/
theorem Cnf.firstUndeclared?_rename (cnf : Cnf) (symbols : List Symbol) :
    firstUndeclared? (rename ρ cnf) (symbols.map ρ) = (firstUndeclared? cnf symbols).map ρ := by
  have declared : ∀ l : Literal, (!(Std.HashSet.ofList (symbols.map ρ)).contains (l.rename ρ).symbol)
      = !(Std.HashSet.ofList symbols).contains l.symbol := by
    intro l
    congr 1
    rw [Bool.eq_iff_iff, Std.HashSet.contains_ofList, Std.HashSet.contains_ofList,
      List.contains_iff_mem, List.contains_iff_mem]
    exact List.mem_map_of_injective injective
  simp only [firstUndeclared?, literals_rename, List.find?_map, Function.comp_def, declared,
    Option.map_map]
  rfl

end Injective

/-! ## Renamings that are injective on some symbols -/

/-- Rename given symbols, and put a mark in front of every other one. -/
def renameOrMark (ρ : Symbol → Symbol) (symbols : List Symbol) (mark : String) (s : Symbol) : Symbol :=
  if s ∈ symbols then ρ s else mark ++ s

section Mark

variable {symbols : List Symbol} {mark : String} {s : Symbol}

theorem renameOrMark_of_mem (h : s ∈ symbols) : renameOrMark ρ symbols mark s = ρ s := if_pos h

theorem renameOrMark_of_notMem (h : s ∉ symbols) : renameOrMark ρ symbols mark s = mark ++ s :=
  if_neg h

/-- A mark that is longer than every new name confuses no symbols. -/
theorem renameOrMark_injective (injective : Set.InjOn ρ {s | s ∈ symbols})
    (long : ∀ s ∈ symbols, (ρ s).length < mark.length) :
    Function.Injective (renameOrMark ρ symbols mark) := by
  have apart : ∀ {s t : Symbol}, s ∈ symbols → ρ s ≠ mark ++ t := by
    intro s t hs same
    have shorter := long s hs
    rw [same, String.length_append] at shorter
    omega
  intro s t same
  by_cases hs : s ∈ symbols <;> by_cases ht : t ∈ symbols
  · rw [renameOrMark_of_mem hs, renameOrMark_of_mem ht] at same
    exact injective hs ht same
  · rw [renameOrMark_of_mem hs, renameOrMark_of_notMem ht] at same
    exact absurd same (apart hs)
  · rw [renameOrMark_of_notMem hs, renameOrMark_of_mem ht] at same
    exact absurd same.symm (apart ht)
  · rw [renameOrMark_of_notMem hs, renameOrMark_of_notMem ht] at same
    exact (String.append_right_inj mark).mp same

/-- A renaming that is injective on some symbols is, on them, each of two injective renamings that
give no other symbol the same name. -/
theorem exists_injective_pair (injective : Set.InjOn ρ {s | s ∈ symbols}) :
    ∃ σ τ : Symbol → Symbol, Function.Injective σ ∧ Function.Injective τ ∧
      (∀ s ∈ symbols, σ s = ρ s ∧ τ s = ρ s) ∧ ∀ s, σ s = τ s → s ∈ symbols := by
  -- The marks are repetitions of two different characters, longer than all new names together.
  let size := (symbols.map fun s => (ρ s).length).sum + 1
  let mark := fun c : Char => String.ofList (List.replicate size c)
  have long : ∀ c : Char, ∀ s ∈ symbols, (ρ s).length < (mark c).length := by
    intro c s hs
    have part : (ρ s).length ≤ (symbols.map fun s => (ρ s).length).sum :=
      List.le_sum_of_mem (List.mem_map_of_mem hs)
    simp only [mark, size, String.length_ofList, List.length_replicate]
    omega
  refine ⟨renameOrMark ρ symbols (mark 'a'), renameOrMark ρ symbols (mark 'b'),
    renameOrMark_injective injective (long 'a'), renameOrMark_injective injective (long 'b'), ?_, ?_⟩
  · intro s hs
    exact ⟨renameOrMark_of_mem hs, renameOrMark_of_mem hs⟩
  · intro s same
    by_contra hs
    rw [renameOrMark_of_notMem hs, renameOrMark_of_notMem hs, String.append_left_inj] at same
    have chars := String.ofList_injective same
    rw [List.replicate_succ, List.replicate_succ, List.cons.injEq] at chars
    exact absurd chars.1 (by decide)

end Mark

end CnfSearch

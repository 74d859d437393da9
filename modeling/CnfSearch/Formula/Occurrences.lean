import CnfSearch.Formula.Clause
import Std.Data.HashMap

set_option autoImplicit false

/-!
# Occurrence counts

How many clauses of a list contain each literal. A literal that is repeated inside a clause counts
once for it, and a clause that is listed twice counts twice: `count_ofCnf`.
-/

namespace CnfSearch

/-- The number of clauses that contain a literal; literals without entry are in none. -/
structure Occurrences where
  table : Std.HashMap Literal Nat

namespace Occurrences

/-- No clause. -/
def empty : Occurrences := ⟨∅⟩

/-- The number of clauses that contain a literal. -/
def count (o : Occurrences) (l : Literal) : Nat := o.table.getD l 0

/-- Count one clause more for a literal. -/
def increment (o : Occurrences) (l : Literal) : Occurrences :=
  ⟨o.table.insert l (o.table.getD l 0 + 1)⟩

/-- Count a clause for each of its literals. -/
def addClause (o : Occurrences) (c : Clause) : Occurrences :=
  c.literals.eraseDups.foldl increment o

/-- The counts of a clause list. -/
def ofCnf (cnf : Cnf) : Occurrences := cnf.foldl addClause empty

@[simp] theorem count_empty (l : Literal) : empty.count l = 0 := by simp [empty, count]

theorem count_increment (o : Occurrences) (k l : Literal) :
    (o.increment k).count l = o.count l + if k = l then 1 else 0 := by
  simp only [count, increment, Std.HashMap.getD_insert, beq_iff_eq]
  split
  next h => rw [h]
  next h => rw [Nat.add_zero]

theorem count_foldl_increment (ls : List Literal) (o : Occurrences) (l : Literal) :
    (ls.foldl increment o).count l = o.count l + ls.count l := by
  induction ls generalizing o with
  | nil => simp
  | cons k ls ih =>
    rw [List.foldl_cons, ih, count_increment, List.count_cons]
    simp only [beq_iff_eq]
    omega

/-- Without duplicates, what a list contains stands in it once. -/
theorem count_eraseDups {α : Type} [DecidableEq α] (x : α) (xs : List α) :
    xs.eraseDups.count x = if x ∈ xs then 1 else 0 := by
  match xs with
  | [] => simp
  | y :: ys =>
    -- What equals the first element is removed from the rest before it is counted.
    rw [List.eraseDups_cons, List.count_cons, count_eraseDups x]
    by_cases h : x = y
    · simp [h]
    · have h' : ¬y = x := fun e => h e.symm
      simp [h, h']
termination_by xs.length
decreasing_by exact Nat.lt_succ_of_le (List.length_filter_le _ ys)

/-- A clause counts once for each literal that it contains. -/
theorem count_addClause (o : Occurrences) (c : Clause) (l : Literal) :
    (o.addClause c).count l = o.count l + if c.contains l then 1 else 0 := by
  rw [addClause, count_foldl_increment, count_eraseDups]
  simp [Clause.contains]

theorem count_foldl_addClause (cnf : Cnf) (o : Occurrences) (l : Literal) :
    (cnf.foldl addClause o).count l = o.count l + cnf.countP fun c => c.contains l := by
  induction cnf generalizing o with
  | nil => simp
  | cons c cnf ih =>
    rw [List.foldl_cons, ih, count_addClause, List.countP_cons]
    omega

/-- The count of a literal is the number of clauses that contain it. -/
theorem count_ofCnf (cnf : Cnf) (l : Literal) :
    (ofCnf cnf).count l = cnf.countP fun c => c.contains l := by
  rw [ofCnf, count_foldl_addClause, count_empty, Nat.zero_add]

end Occurrences

end CnfSearch

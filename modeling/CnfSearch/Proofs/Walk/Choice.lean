import CnfSearch.Walk.Search

set_option autoImplicit false

/-!
# What a walk flips

The literal of a move stands in the clause that is repaired, whether it is drawn or is the most
frequent one: `choose_literal_mem`.
-/

namespace CnfSearch.Walk

/-- The preferred one of some literals is one of them. -/
theorem foldl_preferMoreFrequent_mem (o : Occurrences) {candidates ls : List Literal}
    (sub : ls ⊆ candidates) {best : Literal × Nat} (h : best.1 ∈ candidates) :
    (ls.foldl (preferMoreFrequent o) best).1 ∈ candidates := by
  induction ls generalizing best with
  | nil => exact h
  | cons l ls ih =>
    rw [List.cons_subset] at sub
    apply ih sub.2
    rw [preferMoreFrequent]
    split
    · exact sub.1
    · exact h

theorem mostFrequent_mem (o : Occurrences) (c : Clause) : mostFrequent o c ∈ c.literals :=
  foldl_preferMoreFrequent_mem o (List.Subset.refl _) c.first_mem

/-- The chosen literal stands in the clause. -/
theorem choose_literal_mem {G : Type} [DrawSource G] (f : Formula) (noise : Noise) (c : Clause)
    (source : G) : (choose f noise c source).1.literal ∈ c.literals := by
  simp only [choose]
  split
  · exact c.get_mem _
  · exact mostFrequent_mem f.occurrences c

end CnfSearch.Walk

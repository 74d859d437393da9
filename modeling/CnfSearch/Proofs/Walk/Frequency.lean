import CnfSearch.Proofs.Walk.Draws
import Mathlib.Order.Bounds.Defs

set_option autoImplicit false

/-!
# The greedy move of a walk

A walk counts once, before its first step, how many clauses contain each literal. A greedy move goes
through the literals of a clause and keeps one until a literal with a higher count comes: so it
takes the first of those with the highest count (`foldl_preferMoreFrequent`). The scan starts with a
count of zero, which every literal of a listed clause exceeds (`Occurrences.one_le_count`):
`greedy_move_most_frequent`.
-/

namespace CnfSearch

/-- A literal of a listed clause is contained in a clause. -/
theorem Occurrences.one_le_count {cnf : Cnf} {c : Clause} {l : Literal} (hc : c ∈ cnf)
    (hl : l ∈ c.literals) : 1 ≤ (ofCnf cnf).count l := by
  rw [count_ofCnf, Nat.one_le_iff_ne_zero, ← Nat.pos_iff_ne_zero, List.countP_pos_iff]
  exact ⟨c, hc, List.contains_iff_mem.mpr hl⟩

/-- The literal between two parts of a clause stands at a position, to the left of which the first
part is. -/
theorem Clause.exists_get_of_split {c : Clause} {before after : List Literal} {l : Literal}
    (split : c.literals = before ++ l :: after) :
    ∃ i : Fin c.length, c.get i = l ∧ ∀ j < i, c.get j ∈ before := by
  obtain ⟨literals, nonempty⟩ := c
  obtain rfl : literals = before ++ l :: after := split
  have within : before.length < (before ++ l :: after).length := by simp
  refine ⟨⟨before.length, within⟩, List.getElem_of_append rfl rfl, fun j left => ?_⟩
  have left : j.val < before.length := left
  have there : (before ++ l :: after).get j = before[j.val] := List.getElem_append_left left
  rw [Clause.get, there]
  exact List.getElem_mem left

namespace Walk

/-- The scan keeps its literal if no count exceeds it, and otherwise ends with the first literal of
the highest count. -/
theorem foldl_preferMoreFrequent (o : Occurrences) (ls : List Literal) (best : Literal × Nat) :
    (ls.foldl (preferMoreFrequent o) best = best ∧ ∀ k ∈ ls, o.count k ≤ best.2) ∨
      ∃ before l after, ls = before ++ l :: after ∧
        ls.foldl (preferMoreFrequent o) best = (l, o.count l) ∧ best.2 < o.count l ∧
        (∀ k ∈ before, o.count k < o.count l) ∧ ∀ k ∈ after, o.count k ≤ o.count l := by
  induction ls generalizing best with
  | nil => exact .inl ⟨rfl, by simp⟩
  | cons l ls ih =>
    rw [List.foldl_cons, preferMoreFrequent]
    split
    next more =>
      -- The literal replaces what was kept; only later ones with still more clauses replace it.
      rcases ih (l, o.count l) with ⟨kept, rest⟩ | ⟨before, k, after, rfl, kept, gt, fewer, rest⟩
      · exact .inr ⟨[], l, ls, rfl, kept, more, by simp, rest⟩
      · refine .inr ⟨l :: before, k, after, rfl, kept, Nat.lt_trans more gt, ?_, rest⟩
        exact List.forall_mem_cons.mpr ⟨gt, fewer⟩
    next notMore =>
      rw [Nat.not_lt] at notMore
      rcases ih best with ⟨kept, rest⟩ | ⟨before, k, after, rfl, kept, gt, fewer, rest⟩
      · exact .inl ⟨kept, List.forall_mem_cons.mpr ⟨notMore, rest⟩⟩
      · refine .inr ⟨l :: before, k, after, rfl, kept, gt, ?_, rest⟩
        exact List.forall_mem_cons.mpr ⟨Nat.lt_of_le_of_lt notMore gt, fewer⟩

/-- Where the first literal is counted at all, the most frequent one stands at the least position
whose count no other one exceeds. -/
theorem exists_isLeast_mostFrequent {o : Occurrences} {c : Clause}
    (counted : 1 ≤ o.count c.first) :
    ∃ i : Fin c.length,
      IsLeast {j : Fin c.length | ∀ l ∈ c.literals, o.count l ≤ o.count (c.get j)} i ∧
        mostFrequent o c = c.get i := by
  rcases foldl_preferMoreFrequent o c.literals (c.first, 0) with
    ⟨-, none⟩ | ⟨before, l, after, split, kept, -, fewer, rest⟩
  · have := none c.first c.first_mem
    omega
  · obtain ⟨i, here, left⟩ := c.exists_get_of_split split
    refine ⟨i, ⟨fun k hk => ?_, fun j most => ?_⟩, ?_⟩
    · rw [here]
      rw [split, List.mem_append, List.mem_cons] at hk
      rcases hk with hbefore | rfl | hafter
      · exact Nat.le_of_lt (fewer k hbefore)
      · exact Nat.le_refl _
      · exact rest k hafter
    · -- The literals further to the left are contained in fewer clauses.
      by_contra further
      have fewer := fewer _ (left j (Fin.not_le.mp further))
      have most := most _ (c.get_mem i)
      rw [here] at most
      omega
    · rw [mostFrequent, kept, here]

/-- A fraction that is not below the noise makes a greedy move, and nothing else is drawn. -/
theorem choose_of_not_lt {G : Type} [DrawSource G] (f : Formula) {noise : Noise} (c : Clause)
    {source : G} (above : ¬ (DrawSource.fraction source).1 < noise.value) :
    choose f noise c source =
      (⟨mostFrequent f.occurrences c, false⟩, (DrawSource.fraction source).2) := by
  simp only [choose, if_neg above]

end Walk

/-- The count of every literal is the number of clauses that contain it: a clause counts once,
however often it repeats the literal, and as often as it is listed. A greedy move on a listed clause
takes the literal at the least position whose count is at least that of every literal of the clause,
and that count is at least one. -/
theorem greedy_move_most_frequent {G : Type} [DrawSource G] (cnf : Cnf) (c : Clause)
    (listed : c ∈ cnf) :
    (∀ l, (Walk.Formula.ofCnf cnf).occurrences.count l =
      cnf.countP fun d => decide (l ∈ d.literals)) ∧
    ∀ (noise : Walk.Noise) (source : G), ¬ (DrawSource.fraction source).1 < noise.value →
      ∃ i : Fin c.length,
        Walk.choose (.ofCnf cnf) noise c source =
          (⟨c.get i, false⟩, (DrawSource.fraction source).2) ∧
        IsLeast {j : Fin c.length | ∀ l ∈ c.literals,
          (Walk.Formula.ofCnf cnf).occurrences.count l ≤
            (Walk.Formula.ofCnf cnf).occurrences.count (c.get j)} i ∧
        1 ≤ (Walk.Formula.ofCnf cnf).occurrences.count (c.get i) := by
  refine ⟨?_, ?_⟩
  · intro l
    have counted := Occurrences.count_ofCnf cnf l
    simp only [Clause.contains, List.contains_eq_mem] at counted
    exact counted
  · intro noise source above
    obtain ⟨i, least, most⟩ :=
      Walk.exists_isLeast_mostFrequent (Occurrences.one_le_count listed c.first_mem)
    refine ⟨i, ?_, least, Occurrences.one_le_count listed (c.get_mem i)⟩
    rw [Walk.choose_of_not_lt _ c above]
    exact congrArg (fun l => (Walk.Choice.mk l false, _)) most

/-- A clause that repeats a literal, with its other literal in a clause that is listed twice. -/
def repeatedClause : Cnf :=
  [⟨[⟨"a", true⟩, ⟨"a", true⟩, ⟨"b", true⟩], List.cons_ne_nil _ _⟩,
    ⟨[⟨"b", true⟩], List.cons_ne_nil _ _⟩, ⟨[⟨"b", true⟩], List.cons_ne_nil _ _⟩]

/-- The first clause repeats one literal, but the greedy move takes the other one, which more
clauses contain. -/
theorem greedy_move_most_frequent_repeatedClause :
    ∃ c ∈ repeatedClause, c.literals = [⟨"a", true⟩, ⟨"a", true⟩, ⟨"b", true⟩] ∧
      (Walk.Formula.ofCnf repeatedClause).occurrences.count ⟨"a", true⟩ = 1 ∧
      (Walk.Formula.ofCnf repeatedClause).occurrences.count ⟨"b", true⟩ = 3 ∧
      ¬ (DrawSource.fraction (⟨[], []⟩ : Draws)).1 < (0 : Float) ∧
      Walk.choose (.ofCnf repeatedClause) ⟨0, by decide⟩ c (⟨[], []⟩ : Draws) =
        (⟨⟨"b", true⟩, false⟩, ⟨[], []⟩) := by
  have listed : repeatedClause.head (by decide) ∈ repeatedClause := List.head_mem _
  have above : ¬ (DrawSource.fraction (⟨[], []⟩ : Draws)).1 < (0 : Float) := by decide
  obtain ⟨counts, greedy⟩ := greedy_move_most_frequent (G := Draws) repeatedClause _ listed
  have once : (Walk.Formula.ofCnf repeatedClause).occurrences.count ⟨"a", true⟩ = 1 := by
    rw [counts]
    decide
  have thrice : (Walk.Formula.ofCnf repeatedClause).occurrences.count ⟨"b", true⟩ = 3 := by
    rw [counts]
    decide
  obtain ⟨i, chosen, ⟨most, -⟩, -⟩ := greedy ⟨0, by decide⟩ ⟨[], []⟩ above
  refine ⟨_, listed, rfl, once, thrice, above, ?_⟩
  have atLeast := most ⟨"b", true⟩ (by decide)
  have either : ∀ l ∈ (repeatedClause.head (by decide)).literals,
      l = ⟨"a", true⟩ ∨ l = ⟨"b", true⟩ := by decide
  rw [chosen]
  rcases either _ (Clause.get_mem _ i) with first | second
  · rw [first, once, thrice] at atLeast
    omega
  · rw [second]
    rfl

end CnfSearch

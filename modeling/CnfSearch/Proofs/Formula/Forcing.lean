import CnfSearch.Formula.Valuation
import CnfSearch.Model.Satisfaction

set_option autoImplicit false

/-!
# Forcing a literal

A valuation is changed at one symbol so that a given literal becomes true. A clause list whose
clauses never mention the opposite literal stays true: `Cnf.eval_force_of_opposite_notMem`.
-/

namespace CnfSearch

/-- The valuation that makes a literal true and changes no other symbol. -/
def Valuation.force (v : Valuation) (l : Literal) : Valuation :=
  fun s => if s = l.symbol then l.positive else v s

namespace Literal

@[simp] theorem eval_force_self (v : Valuation) (l : Literal) : l.eval (v.force l) = true := by
  simp [eval, Valuation.force]

theorem eval_force_of_symbol_ne (v : Valuation) {k l : Literal} (h : k.symbol ≠ l.symbol) :
    k.eval (v.force l) = k.eval v := by
  simp [eval, Valuation.force, h]

/-- Only the opposite of the forced literal can stop being true. -/
theorem eval_force_of_ne_opposite {v : Valuation} {k l : Literal} (hk : k.eval v = true)
    (hne : k ≠ l.opposite) : k.eval (v.force l) = true := by
  by_cases same : k.symbol = l.symbol
  · rcases eq_or_eq_opposite same with rfl | rfl
    · exact eval_force_self v k
    · exact absurd rfl hne
  · rw [eval_force_of_symbol_ne v same]
    exact hk

end Literal

namespace Cnf

/-- Forcing a literal whose opposite is nowhere mentioned keeps a clause list true. -/
theorem eval_force_of_opposite_notMem {cnf : Cnf} {v : Valuation} {l : Literal}
    (unopposed : l.opposite ∉ literals cnf) (hv : Cnf.eval v cnf = true) :
    Cnf.eval (v.force l) cnf = true := by
  rw [eval_eq_true_iff] at hv ⊢
  intro c hc
  obtain ⟨k, hk, hkv⟩ := hv c hc
  refine ⟨k, hk, Literal.eval_force_of_ne_opposite hkv ?_⟩
  rintro rfl
  exact unopposed (mem_literals.mpr ⟨c, hc, hk⟩)

end Cnf

end CnfSearch

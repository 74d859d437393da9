import CnfSearch.Proofs.Model.Values
import CnfSearch.Proofs.Walk.Soundness

set_option autoImplicit false

/-!
# Walks with given draws

A list of draws fixes the values and the indices that a walk draws one after another, so it shows
what a walk can do. It decides where the walk starts (`start_draws`) and, unless there is no noise,
which literal each move takes (`choose_draws`).
-/

namespace CnfSearch

/-- Draws that are fixed beforehand; beyond them coins show true and indices are zero. All fractions
are zero, so with any noise every move is random. -/
structure Draws where
  coins : List Bool
  picks : List Nat

namespace Draws

instance : DrawSource Draws where
  coin draws := (draws.coins.headD true, { draws with coins := draws.coins.tail })
  fraction draws := (0, draws)
  below bound positive draws :=
    (⟨draws.picks.headD 0 % bound, Nat.mod_lt _ positive⟩,
      { draws with picks := draws.picks.tail })

theorem coin_eq (value : Bool) (coins : List Bool) (picks : List Nat) :
    DrawSource.coin (⟨value :: coins, picks⟩ : Draws) = (value, ⟨coins, picks⟩) := rfl

theorem fraction_eq (draws : Draws) : DrawSource.fraction draws = (0, draws) := rfl

/-- An index that is in range is drawn as it is written down. -/
theorem below_eq {bound : Nat} (positive : 0 < bound) (i : Fin bound) (coins : List Bool)
    (picks : List Nat) :
    DrawSource.below bound positive (⟨coins, i :: picks⟩ : Draws) = (i, ⟨coins, picks⟩) := by
  have index : (⟨i % bound, Nat.mod_lt _ positive⟩ : Fin bound) = i :=
    Fin.ext (Nat.mod_eq_of_lt i.isLt)
  exact Prod.ext index rfl

end Draws

namespace Walk

/-- Any values can be drawn. -/
theorem randomLiterals_draws (v : Valuation) (symbols : List Symbol) (picks : List Nat) :
    randomLiterals (⟨symbols.map v, picks⟩ : Draws) symbols =
      (v.literals symbols, ⟨[], picks⟩) := by
  induction symbols with
  | nil => rfl
  | cons s symbols ih =>
    simp only [List.map_cons, randomLiterals, Draws.coin_eq, ih, Valuation.literals]

theorem start_draws {v : Valuation} {symbols : List Symbol} {a : Assignment}
    (h : Assignment.ofLiterals (v.literals symbols) = .ok a) (picks : List Nat) :
    start symbols (⟨symbols.map v, picks⟩ : Draws) = .ok ⟨a, ⟨[], picks⟩, {}⟩ := by
  rw [start, randomLiterals_draws]
  simp only [h]

/-- A walk with noise can take any literal of the clause that it repairs. -/
theorem choose_draws (f : Formula) {noise : Noise} (noisy : 0 < noise.value) (c : Clause)
    (i : Fin c.length) (coins : List Bool) (picks : List Nat) :
    choose f noise c (⟨coins, i :: picks⟩ : Draws) = (⟨c.get i, true⟩, ⟨coins, picks⟩) := by
  simp only [choose, Draws.fraction_eq, if_pos noisy, Draws.below_eq]

end Walk

end CnfSearch

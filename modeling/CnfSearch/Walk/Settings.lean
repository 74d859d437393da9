import CnfSearch.Decimal.Binary64

set_option autoImplicit false

/-!
# Settings of a random walk

A walk has a noise, the probability of a random move, and a budget of steps.
-/

namespace CnfSearch.Walk

/-- A probability: a number from zero to one. -/
structure Noise where
  value : Float
  inRange : 0 ≤ value ∧ value ≤ 1

/-- A number that is no probability. -/
structure NoiseError where
  value : Float

/-- The wording of a refused noise. -/
def NoiseError.message (e : NoiseError) : String :=
  "noise must lie in [0, 1], got " ++ Decimal.floatText e.value

/-- Take a number for a probability; the undefined value is refused like a number out of range. -/
def Noise.ofFloat (value : Float) : Except NoiseError Noise :=
  if h : 0 ≤ value ∧ value ≤ 1 then .ok ⟨value, h⟩ else .error ⟨value⟩

/-- The noise of a walk that is given none. -/
def defaultNoise : Float := 0.5

/-- The budget of a walk that is given none. -/
def defaultMaxSteps : Nat := 10000000

/-- How a walk moves and when it gives up. -/
structure Settings where
  noise : Noise
  maxSteps : Nat

end CnfSearch.Walk

set_option autoImplicit false

/-!
# The shortest decimal in an interval

A binary number that is written in decimal needs only so many digits that no other number of its
format is meant. The decimals that mean it fill an interval; of the grids of multiples of a power of
ten the coarsest one that meets the interval gives the fewest digits. `Interval.search` takes on
that grid the point nearest to the number.
-/

namespace CnfSearch.Decimal

/-- A positive number with the interval of decimals that mean it. All three bounds are multiples of
the unit `scale / divisor`. -/
structure Interval where
  low : Nat
  value : Nat
  high : Nat
  closed : Bool
  scale : Nat
  divisor : Nat

/-- A natural number times a power of ten. -/
structure Scaled where
  digits : Nat
  exponent : Int
  deriving DecidableEq

namespace Interval

/-- The factors by which a grid point and a bound are multiplied before they are compared, on the
grid of multiples of ten to the power of `exponent`. -/
def factors (i : Interval) (exponent : Int) : Nat × Nat :=
  match exponent with
  | .ofNat e => (Nat.pow 10 e * i.divisor, i.scale)
  | .negSucc e => (i.divisor, i.scale * Nat.pow 10 (e + 1))

/-- Whether a grid point means the number. -/
def contains (i : Interval) (exponent : Int) (digits : Nat) : Bool :=
  let (forPoint, forBound) := i.factors exponent
  let point := digits * forPoint
  if i.closed then decide (i.low * forBound ≤ point) && decide (point ≤ i.high * forBound)
  else decide (i.low * forBound < point) && decide (point < i.high * forBound)

/-- The grid point that means the number and is nearest to it; of two that are equally near, the
greater one. -/
def nearest? (i : Interval) (exponent : Int) : Option Nat :=
  let (forPoint, forBound) := i.factors exponent
  let value := i.value * forBound
  let below := value / forPoint
  let above := below + 1
  match i.contains exponent below, i.contains exponent above with
  | true, true =>
    -- Both neighbours mean the number; a tie goes up.
    if value - below * forPoint < above * forPoint - value then some below else some above
  | true, false => some below
  | false, true => some above
  | false, false => none

/-- Try a number of grids, from the coarsest given one to finer ones. -/
def search (i : Interval) (exponent : Int) : Nat → Option Scaled
  | 0 => none
  | tries + 1 =>
    match i.nearest? exponent with
    | some digits => some ⟨digits, exponent⟩
    | none => i.search (exponent - 1) tries

end Interval

end CnfSearch.Decimal

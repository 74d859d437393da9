set_option autoImplicit false

/-!
# Decimals with fixed places

A quotient of natural numbers, rounded to a given number of decimal places, and text that is padded
to a width.
-/

namespace CnfSearch.Decimal

/-- A quotient, rounded to the nearest whole number; a half goes up. -/
def roundedQuotient (numerator denominator : Nat) : Nat :=
  (2 * numerator + denominator) / (2 * denominator)

/-- A quotient with a fixed number of places behind the point. -/
def fixedText (places numerator denominator : Nat) : String :=
  let scale := Nat.pow 10 places
  let units := roundedQuotient (numerator * scale) denominator
  let fraction := (units % scale).repr
  let zeros := "".pushn '0' (places - fraction.length)
  if places = 0 then units.repr
  else (units / scale).repr ++ "." ++ zeros ++ fraction

/-- Text at the left end of a field. -/
def padEnd (width : Nat) (text : String) : String := text.pushn ' ' (width - text.length)

/-- Text at the right end of a field. -/
def padStart (width : Nat) (text : String) : String := "".pushn ' ' (width - text.length) ++ text

end CnfSearch.Decimal

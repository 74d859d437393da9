import CnfSearch.Decimal.Shortest
import CnfSearch.Text.Numeral

set_option autoImplicit false

/-!
# Decimal text of binary64 numbers

A number is written with the fewest digits that mean it, always in positional notation and without
a fraction when it is whole. A number is read from a decimal numeral with optional sign, point and
exponent, or from one of the names of infinity and of the undefined value; it is rounded to the
nearest number of the format.
-/

namespace CnfSearch.Decimal

/-! ## Writing -/

/-- A positive number of the format: `significand` times two to the power of `exponent`. -/
structure Binary where
  significand : Nat
  exponent : Int

/-- The least significand of a number that uses all 53 bits. -/
def leastNormal : Nat := Nat.pow 2 52

/-- The magnitude whose bits are the lower 63 bits of a word; the exponent field is not all ones. -/
def Binary.ofBits (bits : Nat) : Binary :=
  let fraction : Nat := bits % leastNormal
  let field : Nat := bits / leastNormal % 2048
  if field = 0 then ⟨fraction, -1074⟩ else ⟨leastNormal + fraction, (field : Int) - 1075⟩

/-- The decimals that round to a number: up to half of the gap to each neighbour. The lower gap is
half as wide where the significand is the least one of its exponent. -/
def Binary.interval (b : Binary) : Interval :=
  let lowerGap := if b.significand = leastNormal ∧ b.exponent ≠ -1074 then 1 else 2
  let quarter := b.exponent - 2
  { low := 4 * b.significand - lowerGap
    value := 4 * b.significand
    high := 4 * b.significand + 2
    closed := b.significand % 2 == 0
    scale := Nat.pow 2 quarter.toNat
    divisor := Nat.pow 2 (-quarter).toNat }

/-- An exponent of ten above every number of the format. -/
def coarsestGrid : Nat := 310

/-- The number of grids from the coarsest one to one that is finer than every gap of the format. -/
def gridCount : Nat := 660

/-- The digits of a natural number with a point before the last `places` of them. -/
def withPoint (digits : List Char) (places : Nat) : List Char :=
  let padded := List.replicate (places + 1 - digits.length) '0' ++ digits
  padded.take (padded.length - places) ++ '.' :: padded.drop (padded.length - places)

/-- Positional notation. -/
def Scaled.text (s : Scaled) : String :=
  let digits := Nat.toDigits 10 s.digits
  String.ofList <|
    match s.exponent with
    | .ofNat e => digits ++ List.replicate e '0'
    | .negSucc e => withPoint digits (e + 1)

/-- The text of a number without its sign, given by the lower 63 bits of its word. -/
def magnitudeText (bits : Nat) : String :=
  if bits = 0 then "0"
  else
    match (Binary.ofBits bits).interval.search coarsestGrid gridCount with
    | some decimal => decimal.text
    | none => "0"

/-- The bits of positive infinity; the words above it, without sign, are the undefined values. -/
def infinityBits : Nat := 2047 * leastNormal

/-- The bit that a negative number has set. -/
def signBit : Nat := Nat.pow 2 63

/-- The text of a number. -/
def floatText (x : Float) : String :=
  let bits := x.toBits.toNat
  let magnitude := bits % signBit
  let sign := if bits < signBit then "" else "-"
  if magnitude < infinityBits then sign ++ magnitudeText magnitude
  else if magnitude = infinityBits then sign ++ "inf"
  else "NaN"

/-! ## Reading -/

/-- Exponents of ten beyond which, in either direction, all numbers of the format lie. -/
def exponentLimit : Int := 400

/-- The number nearest to a decimal. -/
def nearestFloat (s : Scaled) : Float :=
  let size : Int := (Nat.toDigits 10 s.digits).length
  if s.digits = 0 then 0
  else if exponentLimit < s.exponent + size then Float.ofBits infinityBits.toUInt64
  else if s.exponent + size < -exponentLimit then 0
  else
    match s.exponent with
    | .ofNat e => Float.ofScientific s.digits false e
    | .negSucc e => Float.ofScientific s.digits true (e + 1)

/-- The value of an exponent, which has at least one digit and may have a sign. -/
def exponent? : List Char → Option Int
  | '-' :: digits => (Text.natural? digits).map fun n => -(n : Int)
  | '+' :: digits => (Text.natural? digits).map fun n => (n : Int)
  | digits => (Text.natural? digits).map fun n => (n : Int)

/-- The decimal of an unsigned numeral: digits, of which some may stand behind a point, and an
optional exponent behind the letter `e`. There is at least one digit before the exponent. -/
def unsigned? (cs : List Char) : Option Scaled :=
  let isMark : Char → Bool := fun c => c == 'e' || c == 'E'
  let mantissa := cs.takeWhile fun c => !isMark c
  let whole := mantissa.takeWhile fun c => c != '.'
  let places := (mantissa.dropWhile fun c => c != '.').drop 1
  let exponent := match cs.dropWhile fun c => !isMark c with
    | [] => some 0
    | _ :: rest => exponent? rest
  match Text.natural? (whole ++ places), exponent with
  | some digits, some e => some ⟨digits, e - (places.length : Int)⟩
  | _, _ => none

/-- The number that an unsigned text names or means; names are read in any case. -/
def magnitude? (cs : List Char) : Option Float :=
  let name := cs.map Char.toLower
  if name = "inf".toList ∨ name = "infinity".toList then some (Float.ofBits infinityBits.toUInt64)
  else if name = "nan".toList then some (0 / 0)
  else (unsigned? cs).map nearestFloat

/-- The number that a text means. -/
def float? : List Char → Option Float
  | '-' :: rest => (magnitude? rest).map fun x => -x
  | '+' :: rest => magnitude? rest
  | cs => magnitude? cs

end CnfSearch.Decimal

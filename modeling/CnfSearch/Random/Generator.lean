import CnfSearch.Random.Source

set_option autoImplicit false

/-!
# A generator of random words

The generator walks through all words of 64 bits by adding an odd constant, and answers with the
two halves of a product of the new state, folded together. Draws that need an even spread throw
away words that would favour some answers. Because the states form one cycle of `2 ^ 64` words,
that many attempts meet every word: an attempt beyond them could only repeat an earlier one.
-/

namespace CnfSearch

/-- A generator is its state; equal seeds give equal draws. -/
structure Generator where
  state : UInt64
  deriving DecidableEq

namespace Generator

/-- The generator of a seed. -/
def ofSeed (seed : UInt64) : Generator := ⟨seed⟩

/-- The odd constant between two states. -/
def increment : UInt64 := 0x2d358dccaa6c78a5

/-- The constant that the second factor of the product is mixed with. -/
def mask : UInt64 := 0x8bb84b93962eacc9

/-- The next word. -/
def next (g : Generator) : UInt64 × Generator :=
  let state := g.state + increment
  let product := state.toNat * (state ^^^ mask).toNat
  (product.toUInt64 ^^^ (product >>> 64).toUInt64, ⟨state⟩)

/-- The number of states. -/
def period : Nat := Nat.pow 2 64

/-- A coin shows true for an even word. -/
def coin (g : Generator) : Bool × Generator :=
  let (word, g) := g.next
  (word % 2 == 0, g)

/-- The upper 63 bits of a word as a fraction; rounding can make it one. -/
def fractionOf (word : UInt64) : Float := (word >>> 1).toFloat / 9223372036854775808

/-- A fraction below one, within a number of attempts. -/
def fractionWithin (g : Generator) : Nat → Float × Generator
  | 0 => (0, g)
  | attempts + 1 =>
    let (word, g) := g.next
    let x := fractionOf word
    if x < 1 then (x, g) else g.fractionWithin attempts

/-- A fraction that is at least zero and below one. -/
def fraction (g : Generator) : Float × Generator := g.fractionWithin period

/-- The upper word of a product with a bound is below the bound. -/
theorem upper_lt {bound : Nat} (positive : 0 < bound) (word : UInt64) :
    word.toNat * bound / period < bound := by
  have hword : word.toNat < period := word.toNat_lt
  exact Nat.div_lt_of_lt_mul (Nat.mul_lt_mul_of_pos_right hword positive)

/-- An index below a bound, within a number of attempts: the upper word of a product, unless its
lower word falls into the part that the bound does not divide evenly. -/
def belowWithin (bound : Nat) (positive : 0 < bound) (g : Generator) : Nat → Fin bound × Generator
  | 0 => (⟨0, positive⟩, g)
  | attempts + 1 =>
    let (word, g) := g.next
    -- Below this remainder some index would own one word more than the others.
    if word.toNat * bound % period < (period - bound) % bound then
      g.belowWithin bound positive attempts
    else (⟨word.toNat * bound / period, upper_lt positive word⟩, g)

/-- An index below a bound, every index as likely as any other. -/
def below (bound : Nat) (positive : 0 < bound) (g : Generator) : Fin bound × Generator :=
  g.belowWithin bound positive period

instance : SeededSource Generator where
  coin := coin
  fraction := fraction
  below := below
  ofSeed := ofSeed

end Generator

end CnfSearch

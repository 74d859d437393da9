set_option autoImplicit false

/-!
# Sources of random draws

A random walk asks for three kinds of draws. It is defined over any source that answers them, so
what is proved of it holds for every sequence of answers. A command starts its source from a seed or
from a word of its host, and it too is defined over any source for which that is possible.
-/

namespace CnfSearch

/-- A source answers each kind of draw and moves to its next state. -/
class DrawSource (G : Type) where
  /-- One of two values. -/
  coin : G → Bool × G
  /-- A number that is compared with a probability. -/
  fraction : G → Float × G
  /-- An index below a bound. -/
  below : (bound : Nat) → 0 < bound → G → Fin bound × G

/-- A source that a seed starts; equal seeds give equal draws. -/
class SeededSource (G : Type) extends DrawSource G where
  ofSeed : UInt64 → G

end CnfSearch

import CnfSearch.Formula.Clause
import CnfSearch.Model.Satisfaction
import Std.Data.HashMap

set_option autoImplicit false

/-!
# Purity in one reading

The first pure literal of the open symbols can be found by reading the clauses once. The reading
keeps a table of the signs with which every open symbol has occurred, and the literals of their
first occurrences; afterwards it takes the first of these literals whose symbol has not occurred
with both signs. It serves as the second definition of the search among literals that are found pure
beforehand.
-/

namespace CnfSearch.Backtrack

/-- The signs with which a symbol has occurred. -/
inductive Purity where
  | pure (positive : Bool)
  | mixed
  deriving DecidableEq

/-- The signs after a further occurrence. A symbol that is mixed stays so. -/
def Purity.meet (p : Purity) (positive : Bool) : Purity :=
  if p = .pure (!positive) then .mixed else p

/-- What a reading has found so far: the signs of the open symbols that have occurred, and the
literals with which they occurred first, in that order. -/
structure Sightings where
  signs : Std.HashMap Symbol Purity
  candidates : Array Literal

namespace Sightings

/-- Nothing is found before the first literal. -/
def empty : Sightings := ⟨∅, #[]⟩

/-- Read a literal; symbols that are not open are passed over. -/
def note (remaining : Std.HashSet Symbol) (seen : Sightings) (l : Literal) : Sightings :=
  if remaining.contains l.symbol then
    match seen.signs[l.symbol]? with
    | none => ⟨seen.signs.insert l.symbol (.pure l.positive), seen.candidates.push l⟩
    | some p => { seen with signs := seen.signs.insert l.symbol (p.meet l.positive) }
  else seen

/-- The first candidate whose symbol is not mixed. -/
def firstPure? (seen : Sightings) : Option Literal :=
  seen.candidates.find? fun l => seen.signs[l.symbol]? != some .mixed

end Sightings

/-- Read all clauses once and take the first literal of an open symbol that is pure. -/
def readPure? (cnf : Cnf) (remaining : List Symbol) : Option Literal :=
  ((Cnf.literals cnf).foldl (Sightings.note (.ofList remaining)) .empty).firstPure?

end CnfSearch.Backtrack

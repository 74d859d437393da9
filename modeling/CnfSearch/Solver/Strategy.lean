import CnfSearch.Solver.Basic

set_option autoImplicit false

/-!
# Strategies by name

The strategies that can be asked for by name, and the solver that a name and some options make.
-/

namespace CnfSearch

/-- A way to search. -/
inductive Strategy where
  | backtracking
  | walking
  deriving DecidableEq

/-- A name that no strategy has. -/
structure UnknownStrategy where
  name : String

/-- The wording of an unknown name. -/
def UnknownStrategy.message (e : UnknownStrategy) : String := "invalid variant: " ++ e.name

/-- The options of a solver; backtracking needs none of them. -/
structure SolverOptions where
  noise : Float := Walk.defaultNoise
  maxSteps : Nat := Walk.defaultMaxSteps
  seed : Option UInt64 := none

/-- The source that the seed starts; without one, the given source. -/
def SolverOptions.source {G : Type} [SeededSource G] (options : SolverOptions) (unseeded : G) : G :=
  (options.seed.map SeededSource.ofSeed).getD unseeded

namespace Strategy

/-- The strategy that is taken when none is asked for. -/
def default : Strategy := .backtracking

/-- The name of a strategy. -/
def text : Strategy → String
  | .backtracking => "dpll"
  | .walking => "walk-sat"

/-- All strategies. -/
def all : List Strategy := [.backtracking, .walking]

/-- The strategy of a name; if asked for, upper and lower case of ASCII letters are the same. -/
def ofText (name : String) (ignoreCase : Bool) : Except UnknownStrategy Strategy :=
  let fold : String → String := fun s => if ignoreCase then s.toLower else s
  match all.find? fun strategy => fold strategy.text == fold name with
  | some strategy => .ok strategy
  | none => .error ⟨name⟩

/-- A fresh solver. A walk draws from the given source. -/
def solver {G : Type} (strategy : Strategy) (options : SolverOptions) (source : G) :
    Except Walk.NoiseError (Solver G) :=
  match strategy with
  | .backtracking => .ok (.backtracking {})
  | .walking =>
    match Walk.Noise.ofFloat options.noise with
    | .error e => .error e
    | .ok noise => .ok (.walking ⟨⟨noise, options.maxSteps⟩, source, {}⟩)

end Strategy

end CnfSearch

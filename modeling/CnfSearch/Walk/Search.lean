import CnfSearch.Formula.Occurrences
import CnfSearch.Log
import CnfSearch.Model.Satisfaction
import CnfSearch.Random.Source
import CnfSearch.Search.Outcome
import CnfSearch.Walk.Settings

set_option autoImplicit false

/-!
# Random walk

The walk starts from a random total assignment. While a clause is falsified it takes the first such
clause and flips the symbol of one of its literals: a random one with the probability that the noise
gives, and otherwise the one that occurs in most clauses. It stops at the first assignment that
satisfies all clauses, or when its budget of steps is spent.
-/

namespace CnfSearch.Walk

/-- A clause list with its occurrence counts, which are found once for a whole walk. -/
structure Formula where
  clauses : Cnf
  occurrences : Occurrences
  occurrences_eq : occurrences = Occurrences.ofCnf clauses

/-- Count the occurrences of a clause list. -/
def Formula.ofCnf (cnf : Cnf) : Formula := ⟨cnf, Occurrences.ofCnf cnf, rfl⟩

/-- A walk under way. -/
structure State (G : Type) where
  model : Assignment
  source : G
  counters : Counters

/-- The literal of a move, and whether it was drawn. -/
structure Choice where
  literal : Literal
  random : Bool

/-- Keep a literal and its count unless a further literal occurs in more clauses. -/
def preferMoreFrequent (o : Occurrences) (best : Literal × Nat) (l : Literal) : Literal × Nat :=
  if best.2 < o.count l then (l, o.count l) else best

/-- The first of the literals of a clause that occur in most clauses. -/
def mostFrequent (o : Occurrences) (c : Clause) : Literal :=
  (c.literals.foldl (preferMoreFrequent o) (c.first, 0)).1

/-- One symbol after another with a drawn value. -/
def randomLiterals {G : Type} [DrawSource G] (source : G) : List Symbol → List Literal × G
  | [] => ([], source)
  | s :: rest =>
    let (value, source) := DrawSource.coin source
    let (literals, source) := randomLiterals source rest
    (⟨s, value⟩ :: literals, source)

/-- Choose the literal of a falsified clause whose symbol is flipped. -/
def choose {G : Type} [DrawSource G] (f : Formula) (noise : Noise) (c : Clause) (source : G) :
    Choice × G :=
  let (x, source) := DrawSource.fraction source
  -- The fraction is drawn in any case, the index only for a random move.
  if x < noise.value then
    let (i, source) := DrawSource.below c.length c.length_pos source
    (⟨c.get i, true⟩, source)
  else (⟨mostFrequent f.occurrences c, false⟩, source)

namespace State

/-- The walk after a choice. -/
def flip {G : Type} (s : State G) (choice : Choice) (source : G) : State G where
  model := s.model.flip choice.literal.symbol
  source := source
  counters :=
    { s.counters with
      steps := s.counters.steps + 1
      randomFlips := s.counters.randomFlips + if choice.random then 1 else 0
      greedyFlips := s.counters.greedyFlips + if choice.random then 0 else 1 }

/-- Repair a falsified clause. -/
def repair {G : Type} [DrawSource G] (f : Formula) (noise : Noise) (s : State G) (c : Clause) :
    State G :=
  let (choice, source) := choose f noise c s.source
  s.flip choice source

/-- Walk at most a number of steps. -/
def run {G : Type} [DrawSource G] (f : Formula) (settings : Settings) (s : State G) :
    Nat → Except Fault (Answer × State G)
  | 0 => .ok (.error (.exhausted settings.maxSteps), s)
  | budget + 1 =>
    if Cnf.allSatisfied f.clauses s.model then .ok (.ok s.model, s)
    else
      match Cnf.firstFalsified? f.clauses s.model with
      | none => .error .undecided
      | some c => run f settings (s.repair f settings.noise c) budget

/-- The states that a walk of at most a number of steps leaves behind or ends in. -/
def states {G : Type} [DrawSource G] (f : Formula) (settings : Settings) (s : State G) :
    Nat → List (State G)
  | 0 => [s]
  | budget + 1 =>
    if Cnf.allSatisfied f.clauses s.model then [s]
    else
      match Cnf.firstFalsified? f.clauses s.model with
      | none => [s]
      | some c => s :: states f settings (s.repair f settings.noise c) budget

end State

/-- The flip of one step. -/
structure Event where
  step : Nat
  symbol : Symbol
  deriving DecidableEq

/-- The sentence about a flip. -/
def Event.message (e : Event) : String :=
  "Step " ++ e.step.repr ++ ": flipping " ++ e.symbol ++ "."

/-- The flips of a walk of at most a number of steps. -/
def State.events {G : Type} [DrawSource G] (f : Formula) (settings : Settings) (s : State G) :
    Nat → List Event
  | 0 => []
  | budget + 1 =>
    if Cnf.allSatisfied f.clauses s.model then []
    else
      match Cnf.firstFalsified? f.clauses s.model with
      | none => []
      | some c =>
        let (choice, source) := choose f settings.noise c s.source
        ⟨s.counters.steps + 1, choice.literal.symbol⟩
          :: (s.flip choice source).events f settings budget

/-- The walk before its first step. -/
def start {G : Type} [DrawSource G] (symbols : List Symbol) (source : G) :
    Except Fault (State G) :=
  let (literals, source) := randomLiterals source symbols
  match Assignment.ofLiterals literals with
  | .ok model => .ok ⟨model, source, {}⟩
  | .error fault => .error fault

/-- Look for a model of clauses whose symbols are declared. -/
def search {G : Type} [DrawSource G] (settings : Settings) (cnf : Cnf) (symbols : List Symbol)
    (source : G) : Except Fault (Answer × State G) :=
  match start symbols source with
  | .ok s => s.run (.ofCnf cnf) settings settings.maxSteps
  | .error fault => .error fault

/-- The log of a walk: its size and settings, its flips, and its end unless a fault stops it. -/
def log {G : Type} [DrawSource G] (settings : Settings) (cnf : Cnf) (symbols : List Symbol)
    (source : G) : List LogEntry :=
  let opening := "Solving " ++ cnf.length.repr ++ " clauses over " ++ symbols.length.repr
    ++ " symbols (noise " ++ Decimal.floatText settings.noise.value ++ ", max steps "
    ++ settings.maxSteps.repr ++ ")."
  let flips := match start symbols source with
    | .ok s => s.events (.ofCnf cnf) settings settings.maxSteps
    | .error _ => []
  let closing := match search settings cnf symbols source with
    | .ok (.ok _, s) => ["Satisfiable after " ++ s.counters.steps.repr ++ " steps."]
    | .ok (.error _, _) => ["Gave up after " ++ settings.maxSteps.repr ++ " steps."]
    | .error _ => []
  [⟨.debug, "walksat", opening⟩]
    ++ flips.map (fun event => ⟨.trace, "walksat", event.message⟩)
    ++ closing.map fun message => ⟨.debug, "walksat", message⟩

end CnfSearch.Walk

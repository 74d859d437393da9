import CnfSearch.Command.Script
import CnfSearch.Dimacs.Reader
import CnfSearch.Solver.Strategy

set_option autoImplicit false

/-!
# Options and errors of commands

What every solving command can be told, and why it can fail.
-/

namespace CnfSearch.Command

/-- How to solve and what to print. -/
structure Options where
  debug : Bool := false
  verify : Bool := true
  statistics : Bool := true
  printSolution : Bool := false
  strategy : Strategy := .default
  noise : Float := Walk.defaultNoise
  maxSteps : Nat := Walk.defaultMaxSteps
  seed : Option UInt64 := none
  tries : Nat := 1

/-- The part of the options that a solver is made of. -/
def Options.solverOptions (o : Options) : SolverOptions := ⟨o.noise, o.maxSteps, o.seed⟩

/-- The greatest number of runs that one solve takes: backtracking needs no second one. -/
def Options.maxTries (o : Options) : Nat :=
  match o.strategy with
  | .backtracking => 1
  | .walking => max o.tries 1

/-- Why a command fails. -/
inductive CommandError where
  | load (cause : Dimacs.LoadError)
  | noise (cause : Walk.NoiseError)
  | notVerified
  | fault (cause : Fault)

/-- The wording of a failed command. -/
def CommandError.message : CommandError → String
  | .load cause => cause.message
  | .noise cause => cause.message
  | .notVerified => "Solution failed verification"
  | .fault cause => cause.message?.getD "a clause is neither satisfied nor falsified"

/-- A script that can fail. -/
abbrev Task := ExceptT CommandError Script

/-- Print a line. -/
def print (line : String) : Task Unit := ExceptT.lift (.print line .done)

/-- Tell about the work. -/
def note (entry : LogEntry) : Task Unit := ExceptT.lift (.note entry .done)

/-- The time, if it is measured. -/
def clock : Task (Option Nat) := ExceptT.lift (.clock .done)

/-- The memory in use, if it is measured. -/
def memory : Task (Option Memory) := ExceptT.lift (.memory .done)

/-- A source of draws that nobody can foresee. -/
def entropy (G : Type) [SeededSource G] : Task G :=
  ExceptT.lift (.entropy fun word => .done (SeededSource.ofSeed word))

/-- The time between two readings of the clock. -/
def elapsed (before after : Option Nat) : Option Nat :=
  match before, after with
  | some before, some after => some (after - before)
  | _, _ => none

/-- What a reading comes to for a command. -/
def loadResult (reading : Dimacs.Reading) : Except CommandError Problem :=
  match reading.result with
  | .ok (.ok p) => .ok p
  | .ok (.error cause) => .error (.load cause)
  | .error fault => .error (.fault fault)

/-- Tell the notes of a reading and take its problem. -/
def load (reading : Dimacs.Reading) : Task Problem := do
  reading.notes.forM fun n => note n.entry
  match loadResult reading with
  | .ok p => pure p
  | .error cause => throw cause

end CnfSearch.Command

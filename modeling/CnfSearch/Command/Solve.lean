import CnfSearch.Command.Folder
import CnfSearch.Command.Statistics

set_option autoImplicit false

/-!
# Solving commands

Solve a text, a file, all problems of a folder, or one file several times. A solve prints, in this
order: the path of a file, whether the model was verified, the table of statistics, the model, and
the verdict. Which source a walk draws from is a parameter of all of them.
-/

namespace CnfSearch.Command

variable (G : Type) [SeededSource G]

/-- The last lines of a solve. -/
def verdict : Answer → String
  | .ok _ => "SATISFIABLE"
  | .error .unsatisfiable => "UNSATISFIABLE"
  | .error failure => "UNKNOWN (" ++ failure.message ++ ")"

/-- The lines that show a model, if it is asked for, and the verdict after an empty line. -/
def resultLines (p : Problem) (answer : Answer) (printSolution : Bool) : List String :=
  let solution := match answer with
    | .ok model => if printSolution then ["Solution:", p.formatModel model] else []
    | .error _ => []
  solution ++ ["", verdict answer]

/-- Solve a problem as the options say and measure how long that takes. If asked for, the log of the
first run is told. -/
def timedSolve (p : Problem) (options : Options) : Task (Outcome × Option Nat) := do
  let unseeded ← entropy G
  let source := options.solverOptions.source unseeded
  let before ← clock
  let result := solve p options source
  let after ← clock
  match result with
  | .ok outcome =>
    if options.debug then
      match options.strategy.solver options.solverOptions source with
      | .ok solver =>
        (solver.log p.clauses p.symbols).forM fun entry =>
          if entry.severity = .trace then pure () else note entry
      | .error _ => pure ()
    pure (outcome, elapsed before after)
  | .error cause => throw cause

/-- Check a model and say so; answers without a model need no check. -/
def verify (p : Problem) (answer : Answer) : Task Unit :=
  match answer with
  | .ok model =>
    if p.verify model then print "Verified: true"
    else do
      print "Verified: false"
      throw .notVerified
  | .error _ => pure ()

/-- Solve a loaded problem and report. -/
def report (p : Problem) (options : Options) (path : Option String) (parseTime : Option Nat) :
    Task Unit := do
  match path with
  | some path => print ("Solving: " ++ path)
  | none => pure ()
  let (outcome, solveTime) ← timedSolve G p options
  if options.verify then verify p outcome.answer
  if options.statistics then
    let memory ← memory
    (statistics p outcome ⟨parseTime, solveTime, memory⟩).forM print
  (resultLines p outcome.answer options.printSolution).forM print

/-- Solve a text. -/
def solveText (text : String) (options : Options) : Task Unit := do
  let before ← clock
  let p ← load (Dimacs.read text)
  let after ← clock
  report G p options none (elapsed before after)

/-- Load the problem of a file. -/
def loadFile (path : String) : Task Problem := do
  match ← ExceptT.lift (.read path .done) with
  | .ok bytes => load (Dimacs.readBytes bytes)
  | .error cause => throw (.load (.unreadable cause))

/-- Solve a file. -/
def solveFile (path : String) (options : Options) : Task Unit := do
  let before ← clock
  let p ← loadFile path
  let after ← clock
  report G p options (some path) (elapsed before after)

/-- Solve files one after another, up to the first that fails. -/
def solveFiles (paths : List String) (options : Options) : Task Unit :=
  match paths with
  | [] => pure ()
  | path :: rest => do
    solveFile G path options
    solveFiles rest options

/-- Solve a file, or all problems of a folder. -/
def solvePath (path : String) (options : Options) : Task Unit := do
  match ← ExceptT.lift (.list path .done) with
  | some folder => solveFiles G (folder.problems path) options
  | none => solveFile G path options

/-- The verdict of one run of a benchmark. -/
def runVerdict : Answer → String
  | .ok _ => "SATISFIABLE"
  | .error failure => failure.message

/-- The time of one run of a benchmark. -/
def runTimeText (nanoseconds : Option Nat) : String :=
  match nanoseconds with
  | some _ => secondsText nanoseconds ++ "s"
  | none => unmeasured

/-- Solve a problem a number of times, each time from the start, and add up the times. -/
def benchmarkRuns (p : Problem) (options : Options) (run : Nat) (total : Option Nat) :
    Nat → Task (Option Nat)
  | 0 => pure total
  | more + 1 => do
    let (outcome, time) ← timedSolve G p options
    print ("Run " ++ Decimal.padStart 3 run.repr ++ ": "
      ++ Decimal.padEnd 40 (runVerdict outcome.answer) ++ " " ++ runTimeText time)
    let total := match total, time with
      | some total, some time => some (total + time)
      | _, _ => none
    benchmarkRuns p options (run + 1) total more

/-- Solve a file a number of times and print the average time. -/
def benchmark (path : String) (runs : Nat) (options : Options) : Task Unit := do
  let p ← loadFile path
  print ("Benchmarking: " ++ path)
  let total ← benchmarkRuns G p options 1 (some 0) runs
  if 0 < runs then
    let average := match total with
      | some t => Decimal.fixedText 3 t (1000000000 * runs)
      | none => unmeasured
    print ("Average time: " ++ average ++ " seconds")

end CnfSearch.Command

import CnfSearch.Command.Request
import CnfSearch.Command.Solve

set_option autoImplicit false

/-!
# Running a command line

A command line becomes one script, whose result is the exit code and what is to be said about an
error. Errors of a command exit with code 1, a command line that is not understood with code 2, and
a fault with the code of a program that aborts.
-/

namespace CnfSearch.Command

/-- How a command ends. -/
structure Exit where
  code : Nat
  errors : List String
  deriving DecidableEq

/-- The name and version of the program. -/
def versionLine : String := "sat-strategies 0.1.0"

/-- How the program is called. -/
def usageLines : List String :=
  [ "Usage: sat-strategies [OPTIONS] [PATH] [COMMAND]",
    "Commands: file --path PATH, text --input TEXT, bench --path PATH, completions SHELL, help",
    "Options: --debug, --verify BOOL, --stats BOOL, --print-solution, --solver NAME, --noise P,",
    "  --max-steps N, --seed N, --tries N, --help, --version" ]

/-- The words that can be completed on a command line. -/
def completionWords : List String :=
  Subcommand.all.map Subcommand.word ++ mainGrammar.parameters.map fun p => "--" ++ p.long

/-- How a command that fails ends: a fault aborts the program, any other error is said. -/
def CommandError.exit : CommandError → Exit
  | .fault cause => ⟨134, cause.message?.toList⟩
  | cause => ⟨1, ["Error: " ++ cause.message]⟩

/-- Run a task to its exit. -/
def Task.run (task : Task Unit) : Script Exit := do
  match ← ExceptT.run task with
  | .ok _ => pure ⟨0, []⟩
  | .error cause => pure cause.exit

/-- Run what a command line asks for, with draws from a kind of source. -/
def Request.run (G : Type) [SeededSource G] : Request → Script Exit
  | .solve path options => Task.run (solvePath G path options)
  | .file path options => Task.run (solveFile G path options)
  | .text input options => Task.run (solveText G input options)
  | .bench path runs options => Task.run (benchmark G path runs options)
  | .completions _ => Task.run (completionWords.forM print)
  | .version => Task.run (print versionLine)
  | .help => Task.run (usageLines.forM print)
  | .nothing => .done ⟨1, ["No path or subcommand given. Use --help for usage."]⟩
  | .misuse => .done ⟨2, usageLines⟩

/-- Run a command line, with draws from a kind of source. -/
def run (G : Type) [SeededSource G] (words : List String) : Script Exit :=
  (Request.read words).run G

end CnfSearch.Command

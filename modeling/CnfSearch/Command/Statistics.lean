import CnfSearch.Command.Attempts
import CnfSearch.Decimal.Fixed

set_option autoImplicit false

/-!
# The table of statistics

A table of the size of a problem and of the work of a solve. A figure that was not measured is
written as a star.
-/

namespace CnfSearch.Command

/-- The text of a figure that nothing measured. -/
def unmeasured : String := "*"

/-- A duration in seconds. -/
def secondsText (nanoseconds : Option Nat) : String :=
  match nanoseconds with
  | some t => Decimal.fixedText 3 t 1000000000
  | none => unmeasured

/-- An amount of memory in MiB. -/
def mebibytesText (bytes : Option Nat) : String :=
  match bytes with
  | some n => Decimal.fixedText 2 n (1024 * 1024)
  | none => unmeasured

/-- A number of events in a duration, for each second of it. -/
def rateText (count : Nat) (nanoseconds : Option Nat) : String :=
  match nanoseconds with
  | some 0 => Decimal.padStart 9 "0"
  | some t => Decimal.padStart 9 (Decimal.fixedText 0 (count * 1000000000) t)
  | none => unmeasured

/-- A row with a label and a value. -/
def row (label value : String) : String :=
  "|  " ++ Decimal.padEnd 28 label ++ " " ++ Decimal.padStart 18 value ++ "  |"

/-- A row with a label, a number of events and their rate. -/
def rateRow (label : String) (count : Nat) (nanoseconds : Option Nat) : String :=
  "|  " ++ Decimal.padEnd 20 label ++ " " ++ Decimal.padStart 12 count.repr ++ " ("
    ++ rateText count nanoseconds ++ "/sec)  |"

/-- What is measured about a solve. -/
structure Measures where
  parseTime : Option Nat
  solveTime : Option Nat
  memory : Option Memory

/-- The table. -/
def statistics (p : Problem) (outcome : Outcome) (m : Measures) : List String :=
  let work := outcome.counters
  [ "",
    "=======================[ Problem Statistics ]=========================",
    row "Parse time (s)" (secondsText m.parseTime),
    row "Variables" p.variableCount.repr,
    row "Clauses" p.clauseCount.repr,
    row "Literals" p.literalCount.repr,
    "========================[ Search Statistics ]========================",
    rateRow "Decisions" work.decisions m.solveTime,
    rateRow "Propagations" work.propagations m.solveTime,
    rateRow "Pure literals" work.pureLiterals m.solveTime,
    rateRow "Conflicts" work.conflicts m.solveTime,
    rateRow "Steps" work.steps m.solveTime,
    rateRow "Flips" work.flips m.solveTime,
    row "Random flips" work.randomFlips.repr,
    row "Tries" outcome.tries.repr,
    row "Memory usage (MiB)" (mebibytesText (m.memory.map Memory.allocated)),
    row "Resident memory (MiB)" (mebibytesText (m.memory.map Memory.resident)),
    row "CPU time (s)" (secondsText m.solveTime),
    "=====================================================================" ]

end CnfSearch.Command

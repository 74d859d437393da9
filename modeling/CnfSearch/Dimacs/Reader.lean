import CnfSearch.Dimacs.Line
import CnfSearch.Log

set_option autoImplicit false

/-!
# Reading the DIMACS format

A text is read line by line into a draft: the last problem line and the clauses so far. The first
line that cannot be read ends the reading with its error; a line that opens with `%` ends it with
the draft. The draft then becomes a problem over numbered variables: as many as its problem line
declares, or up to the greatest one used if it has no problem line. A problem line can declare more
variables than a list holds, and then the reading ends with a fault.
-/

namespace CnfSearch.Dimacs

/-- What the lines so far say. -/
structure Draft where
  header : Option Header
  clauses : Array Clause

namespace Draft

/-- The draft before the first line. -/
def empty : Draft := ⟨none, #[]⟩

/-- The greatest variable that occurs in the clauses, or zero. -/
def greatestVariable (d : Draft) : Nat :=
  ((Cnf.literals d.clauses.toList).filterMap fun l => Text.natural? l.symbol.toList).foldl max 0

/-- The number of variables of the problem. -/
def variableCount (d : Draft) : Nat :=
  match d.header with
  | some header => header.variableCount
  | none => d.greatestVariable

/-- The problem that the draft describes. -/
def toProblem (d : Draft) : Except Fault (Except LoadError Problem) :=
  match Problem.ofVariables d.clauses.toList d.variableCount with
  | .ok (.ok p) => .ok (.ok p)
  | .ok (.error cause) => .ok (.error (.declaration cause))
  | .error fault => .error fault

end Draft

/-- What a reader tells about a text that it has read to its end. -/
inductive Note where
  | countMismatch (declared found : Nat)
  | parsed (clauseCount variableCount : Nat)
  deriving DecidableEq

/-- The log entry of a note; only a wrong count asks for attention. -/
def Note.entry : Note → LogEntry
  | .countMismatch declared found =>
    ⟨.warn, "dimacs", "Problem line declares " ++ declared.repr ++ " clauses, found "
      ++ found.repr ++ "."⟩
  | .parsed clauseCount variableCount =>
    ⟨.debug, "dimacs", "Parsed " ++ clauseCount.repr ++ " clauses over " ++ variableCount.repr
      ++ " variables."⟩

/-- The notes on a finished draft. -/
def Draft.notes (d : Draft) : List Note :=
  let mismatch := match d.header with
    | some header =>
      if header.clauseCount = d.clauses.size then []
      else [.countMismatch header.clauseCount d.clauses.size]
    | none => []
  mismatch ++ [.parsed d.clauses.size d.variableCount]

/-- Extend a draft by lines; a line that is no text is given as `none`. -/
def scan (d : Draft) : List (Option (List Char)) → Except LoadError Draft
  | [] => .ok d
  | none :: _ => .error (.unreadable .notUtf8)
  | some line :: rest =>
    match Line.read line with
    | .error cause => .error cause
    | .ok .stop => .ok d
    | .ok .nothing => scan d rest
    -- A further problem line replaces the one before it.
    | .ok (.header header) => scan { d with header := some header } rest
    | .ok (.clause clause) => scan { d with clauses := d.clauses.push clause } rest

/-- What comes of reading a text: a problem, an error or a fault, and notes. -/
structure Reading where
  result : Except Fault (Except LoadError Problem)
  notes : List Note

/-- Read the lines of a text. -/
def readLines (lines : List (Option (List Char))) : Reading :=
  match scan .empty lines with
  | .error cause => ⟨.ok (.error cause), []⟩
  | .ok draft => ⟨draft.toProblem, draft.notes⟩

/-- The lines of a text. -/
def linesOf (text : String) : List (Option (List Char)) :=
  (Text.pieces (fun c => c == '\n') text.toList).map some

/-- The lines of a byte sequence, each decoded by itself. -/
def linesOfBytes (bytes : List UInt8) : List (Option (List Char)) :=
  (Text.pieces (fun b => b == 10) bytes).map fun line =>
    (String.fromUTF8? ⟨line.toArray⟩).map String.toList

/-- Read a text. -/
def read (text : String) : Reading := readLines (linesOf text)

/-- Read a byte sequence. A line that is not UTF-8 is an error only when it is reached. -/
def readBytes (bytes : List UInt8) : Reading := readLines (linesOfBytes bytes)

/-- The problem that a text describes. -/
def parse (text : String) : Except Fault (Except LoadError Problem) := (read text).result

/-- The problem that a byte sequence describes. -/
def parseBytes (bytes : List UInt8) : Except Fault (Except LoadError Problem) :=
  (readBytes bytes).result

end CnfSearch.Dimacs

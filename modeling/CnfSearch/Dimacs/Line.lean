import CnfSearch.Formula.Clause
import CnfSearch.Problem.Basic

set_option autoImplicit false

/-!
# Lines of the DIMACS format

A line is classified by its first character that is not blank: `c` opens a comment, `p` a problem
line, `%` ends the data, and any other line is a clause. A problem line has four words, of which the
last two count variables and clauses.
-/

namespace CnfSearch.Dimacs

/-- Why a file or one of its lines cannot be read as text. -/
inductive FileError where
  | notUtf8
  | notFound
  | isDirectory
  | notDirectory
  /-- Any other error, in the words of the system. -/
  | other (text : String)
  deriving DecidableEq

/-- The wording of a file error. -/
def FileError.message : FileError → String
  | .notUtf8 => "stream did not contain valid UTF-8"
  | .notFound => "No such file or directory (os error 2)"
  | .isDirectory => "Is a directory (os error 21)"
  | .notDirectory => "Not a directory (os error 20)"
  | .other text => text

/-- Why a text is no problem. -/
inductive LoadError where
  | unreadable (cause : FileError)
  | header (line : String)
  | clause (cause : ReadError)
  | declaration (cause : DeclarationError)
  deriving DecidableEq

/-- The wording of a refused text. -/
def LoadError.message : LoadError → String
  | .unreadable cause => "I/O error: " ++ cause.message
  | .header line => "Malformed problem line: '" ++ line ++ "'"
  | .clause cause => cause.message
  | .declaration cause => cause.message

/-- The counts that a problem line declares. -/
structure Header where
  variableCount : Nat
  clauseCount : Nat
  deriving DecidableEq

/-- Read the counts of a problem line. -/
def Header.read? (line : List Char) : Option Header :=
  match Text.words line with
  | [_, _, third, fourth] => do
    let variableCount ← Text.below? Text.wordBound third
    let clauseCount ← Text.below? Text.wordBound fourth
    pure ⟨variableCount, clauseCount⟩
  | _ => none

/-- What a line contributes to a problem. -/
inductive Line where
  | nothing
  | stop
  | header (header : Header)
  | clause (clause : Clause)

/-- Read a line; blanks around it do not count. -/
def Line.read (line : List Char) : Except LoadError Line :=
  match Text.trim line with
  | [] => .ok .nothing
  | 'c' :: _ => .ok .nothing
  | '%' :: _ => .ok .stop
  | 'p' :: rest =>
    match Header.read? ('p' :: rest) with
    | some counts => .ok (.header counts)
    | none => .error (.header (String.ofList ('p' :: rest)))
  | first :: rest =>
    match Clause.parse (first :: rest) with
    | .ok read => .ok (.clause read)
    | .error cause => .error (.clause cause)

end CnfSearch.Dimacs

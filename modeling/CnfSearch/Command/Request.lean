import CnfSearch.Command.Grammar

set_option autoImplicit false

/-!
# Requests

What a command line asks for. Items are read in order; the first that is wrong, or that asks for the
version or for help, decides. A parameter may be given once, a value must have the form that its
parameter demands, and operands and parameters that a command needs must be there. Parameters and an
operand in front of a subcommand are read but have no effect on it.
-/

namespace CnfSearch.Command

/-- What a command line asks for. -/
inductive Request where
  | solve (path : String) (options : Options)
  | file (path : String) (options : Options)
  | text (input : String) (options : Options)
  | bench (path : String) (runs : Nat) (options : Options)
  | completions (shell : String)
  | version
  | help
  /-- Neither a path nor a subcommand. -/
  | nothing
  /-- A command line that is not understood. -/
  | misuse

/-- The options of a request; those that solve nothing have the usual ones. -/
def Request.options : Request → Options
  | .solve _ options => options
  | .file _ options => options
  | .text _ options => options
  | .bench _ _ options => options
  | _ => {}

/-- What the items so far say. -/
structure Given where
  options : Options := {}
  path : Option String := none
  input : Option String := none
  runs : Nat := 10
  operand : Option String := none
  seen : List Parameter := []

/-- A truth value in words. -/
def bool? (text : String) : Option Bool :=
  if text = "true" then some true else if text = "false" then some false else none

/-- A number of 64 bits. -/
def word? (text : String) : Option Nat := Text.below? Text.wordBound text.toList

/-- A path, which is not empty. -/
def path? (text : String) : Option String := if text = "" then none else some text

/-- A strategy by its name. -/
def strategy? (text : String) : Option Strategy := (Strategy.ofText text false).toOption

namespace Given

/-- Take a parameter without value. -/
def flag (g : Given) : Parameter → Option Given
  | .debug => some { g with options := { g.options with debug := true } }
  | .printSolution => some { g with options := { g.options with printSolution := true } }
  | _ => none

/-- Take a parameter with its value. -/
def value (g : Given) (text : String) : Parameter → Option Given
  | .verify => (bool? text).map fun b => { g with options := { g.options with verify := b } }
  | .statistics =>
    (bool? text).map fun b => { g with options := { g.options with statistics := b } }
  | .solver =>
    (strategy? text).map fun s => { g with options := { g.options with strategy := s } }
  | .noise =>
    (Decimal.float? text.toList).map fun x => { g with options := { g.options with noise := x } }
  | .maxSteps =>
    (word? text).map fun n => { g with options := { g.options with maxSteps := n } }
  | .seed =>
    (word? text).map fun n => { g with options := { g.options with seed := some n.toUInt64 } }
  | .tries => (word? text).map fun n => { g with options := { g.options with tries := n } }
  | .path => (path? text).map fun p => { g with path := some p }
  | .input => some { g with input := some text }
  | .runs => (word? text).map fun n => { g with runs := n }
  | _ => none

/-- Take a parameter that was not given before. -/
def parameter (g : Given) (p : Parameter) (text : Option String) : Option Given :=
  if g.seen.contains p then none
  else
    let g := { g with seen := p :: g.seen }
    match text with
    | some text => g.value text p
    | none => g.flag p

/-- Take an operand; there is at most one. -/
def takeOperand (g : Given) (text : String) : Option Given :=
  match g.operand with
  | some _ => none
  | none => (path? text).map fun p => { g with operand := some p }

end Given

/-- What a reading of items ends with. -/
inductive Ending where
  | given (given : Given)
  | subcommand (subcommand : Subcommand) (rest : List String)
  | request (request : Request)

/-- Read items in their order. -/
def readItems (g : Given) : List Item → Ending
  | [] => .given g
  | .parameter .version _ :: _ => .request .version
  | .parameter .help _ :: _ => .request .help
  | .parameter p text :: rest =>
    match g.parameter p text with
    | some g => readItems g rest
    | none => .request .misuse
  | .operand text :: rest =>
    match g.takeOperand text with
    | some g => readItems g rest
    | none => .request .misuse
  | .subcommand s rest :: _ => .subcommand s rest
  | .misfit :: _ => .request .misuse

/-- The parameters of every command that solves. -/
def commonParameters : List Parameter :=
  [.debug, .verify, .statistics, .printSolution, .solver, .noise, .maxSteps, .seed, .tries, .help]

/-- The shells whose completions can be asked for. -/
def shells : List String := ["bash", "elvish", "fish", "powershell", "zsh"]

namespace Subcommand

/-- What a subcommand knows: its parameters, and for completions the name of a shell. -/
def grammar : Subcommand → Grammar
  | .file => ⟨.path :: commonParameters, [], false⟩
  | .text => ⟨.input :: commonParameters, [], false⟩
  | .bench => ⟨.path :: .runs :: commonParameters, [], false⟩
  | .completions => ⟨[.help], [], true⟩
  | .help => ⟨[], [], false⟩

/-- All subcommands. -/
def all : List Subcommand := [.file, .text, .bench, .completions, .help]

/-- What a subcommand asks for; help needs nothing else. -/
def request (s : Subcommand) (g : Given) : Request :=
  match s with
  | .file =>
    match g.path with
    | some path => .file path g.options
    | none => .misuse
  | .text =>
    match g.input with
    | some input => .text input g.options
    | none => .misuse
  | .bench =>
    match g.path with
    | some path => .bench path g.runs g.options
    | none => .misuse
  | .completions =>
    match g.operand with
    | some shell => if shells.contains shell then .completions shell else .misuse
    | none => .misuse
  | .help => .help

/-- What help is asked about: all subcommands, or one of them. -/
def readHelp (words : List String) : Request :=
  match words with
  | [] => .help
  | [word] => if all.any fun s => s.word == word then .help else .misuse
  | _ => .misuse

/-- Read the words behind a subcommand. -/
def read (s : Subcommand) (words : List String) : Request :=
  if s = .help then readHelp words
  else
    match readItems {} (s.grammar.items words) with
    | .given g => s.request g
    | .subcommand _ _ => .misuse
    | .request r => r

end Subcommand

/-- The grammar of a command line before its subcommand. -/
def mainGrammar : Grammar := ⟨.version :: commonParameters, Subcommand.all, true⟩

/-- Read a command line. -/
def Request.read (words : List String) : Request :=
  match readItems {} (mainGrammar.items words) with
  | .given g =>
    match g.operand with
    | some path => .solve path g.options
    | none => .nothing
  | .subcommand s rest => s.read rest
  | .request r => r

end CnfSearch.Command

import CnfSearch.Command.Options

set_option autoImplicit false

/-!
# The grammar of command lines

A command line is a sequence of words. Under a grammar, which says the parameters and subcommands
that are known, `Grammar.items` cuts it into items: parameters with their values, operands, and a
subcommand with the words that belong to it. A word that fits nowhere becomes an item of its own, so
that whoever reads the items meets it in its place.

Long names follow two dashes, and a value follows an equals sign or is the next word. Short names
are letters behind one dash; several may share it, and the rest of the word behind a letter that
takes a value is its value. A word that is a value of its own may not look like a parameter. All
words behind a lone double dash are operands.
-/

namespace CnfSearch.Command

/-- What can be given by name. -/
inductive Parameter where
  | debug
  | verify
  | statistics
  | printSolution
  | solver
  | noise
  | maxSteps
  | seed
  | tries
  | path
  | input
  | runs
  | version
  | help
  deriving DecidableEq

namespace Parameter

/-- The name behind two dashes. -/
def long : Parameter → String
  | .debug => "debug"
  | .verify => "verify"
  | .statistics => "stats"
  | .printSolution => "print-solution"
  | .solver => "solver"
  | .noise => "noise"
  | .maxSteps => "max-steps"
  | .seed => "seed"
  | .tries => "tries"
  | .path => "path"
  | .input => "input"
  | .runs => "runs"
  | .version => "version"
  | .help => "help"

/-- The letter behind one dash. -/
def short? : Parameter → Option Char
  | .debug => some 'd'
  | .printSolution => some 'p'
  | .solver => some 's'
  | .input => some 'i'
  | .runs => some 'r'
  | .version => some 'V'
  | .help => some 'h'
  | _ => none

/-- Whether a value belongs to the parameter. -/
def takesValue : Parameter → Bool
  | .debug => false
  | .printSolution => false
  | .version => false
  | .help => false
  | _ => true

end Parameter

/-- What a command line asks for beside the solving of a path. -/
inductive Subcommand where
  | file
  | text
  | bench
  | completions
  | help
  deriving DecidableEq

/-- The name of a subcommand. -/
def Subcommand.word : Subcommand → String
  | .file => "file"
  | .text => "text"
  | .bench => "bench"
  | .completions => "completions"
  | .help => "help"

/-- The parameters and subcommands that are known at a place of the command line, and whether a word
that is none of them can stand there. -/
structure Grammar where
  parameters : List Parameter
  subcommands : List Subcommand
  takesOperand : Bool

/-- A part of a command line. -/
inductive Item where
  | parameter (parameter : Parameter) (value : Option String)
  | operand (text : String)
  | subcommand (subcommand : Subcommand) (rest : List String)
  | misfit

/-- The form of a word. -/
inductive Shape where
  | separator
  | long (name : String) (value : Option String)
  | short (letters : List Char)
  | plain

/-- The form of a word; a lone dash is a plain word. -/
def Shape.ofWord (word : String) : Shape :=
  match word.toList with
  | ['-', '-'] => .separator
  | '-' :: '-' :: rest =>
    let name := rest.takeWhile fun c => c != '='
    match rest.dropWhile fun c => c != '=' with
    | [] => .long (String.ofList name) none
    | _ :: value => .long (String.ofList name) (some (String.ofList value))
  | '-' :: c :: rest => .short (c :: rest)
  | _ => .plain

namespace Grammar

/-- The parameter of a long name. -/
def ofLong? (g : Grammar) (name : String) : Option Parameter :=
  g.parameters.find? fun p => p.long == name

/-- The parameter of a letter. -/
def ofShort? (g : Grammar) (letter : Char) : Option Parameter :=
  g.parameters.find? fun p => p.short? == some letter

/-- The subcommand of a word. -/
def subcommand? (g : Grammar) (word : String) : Option Subcommand :=
  g.subcommands.find? fun s => s.word == word

/-- The item of a word that is no parameter and no subcommand. -/
def operand (g : Grammar) (word : String) : Item :=
  if g.takesOperand then .operand word else .misfit

/-- The parameters behind one dash. The last of them may wait for its value. -/
def cluster (g : Grammar) : List Char → List Item × Option Parameter
  | [] => ([], none)
  | letter :: rest =>
    match g.ofShort? letter with
    | none => ([.misfit], none)
    | some p =>
      if p.takesValue then
        match rest with
        | [] => ([], some p)
        | '=' :: value => ([.parameter p (some (String.ofList value))], none)
        | value => ([.parameter p (some (String.ofList value))], none)
      else
        let (items, waiting) := g.cluster rest
        (.parameter p none :: items, waiting)

/-- The parameter behind two dashes, which may wait for its value. -/
def named (g : Grammar) (name : String) (value : Option String) : List Item × Option Parameter :=
  match g.ofLong? name with
  | none => ([.misfit], none)
  | some p =>
    match p.takesValue, value with
    | true, some value => ([.parameter p (some value)], none)
    | true, none => ([], some p)
    | false, some _ => ([.misfit], none)
    | false, none => ([.parameter p none], none)

/-- The items of a command line, given the parameter that waits for a value. -/
def itemsAfter (g : Grammar) (waiting : Option Parameter) : List String → List Item
  | [] =>
    match waiting with
    | some _ => [.misfit]
    | none => []
  | word :: rest =>
    match waiting, Shape.ofWord word with
    -- A waiting parameter takes the next word, even one that names a subcommand.
    | some p, .plain => .parameter p (some word) :: g.itemsAfter none rest
    | some _, _ => [.misfit]
    | none, .separator => rest.map g.operand
    | none, .long name value =>
      let (items, waiting) := g.named name value
      items ++ g.itemsAfter waiting rest
    | none, .short letters =>
      let (items, waiting) := g.cluster letters
      items ++ g.itemsAfter waiting rest
    | none, .plain =>
      match g.subcommand? word with
      | some s => [.subcommand s rest]
      | none => g.operand word :: g.itemsAfter none rest

/-- The items of a command line. -/
def items (g : Grammar) (words : List String) : List Item := g.itemsAfter none words

end Grammar

end CnfSearch.Command

import CnfSearch.Model.Satisfaction

set_option autoImplicit false

/-!
# Problems

A problem is a clause list over an ordered list of distinct symbols that names every symbol of the
clauses. Both conditions are part of the type; `Problem.declare` builds a problem from parts that
may violate them and says what is wrong.
-/

namespace CnfSearch

/-- Why clauses and symbols do not make a problem. -/
inductive DeclarationError where
  | repeated (symbol : Symbol)
  | undeclared (symbol : Symbol)
  deriving DecidableEq

/-- The wording of a refused declaration. -/
def DeclarationError.message : DeclarationError → String
  | .repeated s => "Symbol '" ++ s ++ "' declared more than once"
  | .undeclared s => "Clause references undeclared symbol '" ++ s ++ "'"

/-- Clauses over distinct symbols, among which are all symbols of the clauses. -/
structure Problem where
  clauses : Cnf
  symbols : List Symbol
  distinct : symbols.Nodup
  declared : ∀ c ∈ clauses, ∀ l ∈ c.literals, l.symbol ∈ symbols
  deriving DecidableEq

/-- The first element of a list that stands among the ones seen before it. -/
def firstRepeated? (seen : Std.HashSet Symbol) : List Symbol → Option Symbol
  | [] => none
  | s :: rest => if seen.contains s then some s else firstRepeated? (seen.insert s) rest

/-- Nothing is repeated exactly if the list has no duplicates and none of what was seen. -/
theorem firstRepeated?_eq_none_iff {seen : Std.HashSet Symbol} {symbols : List Symbol} :
    firstRepeated? seen symbols = none ↔
      symbols.Nodup ∧ ∀ s ∈ symbols, seen.contains s = false := by
  induction symbols generalizing seen with
  | nil => simp [firstRepeated?]
  | cons s rest ih =>
    rw [firstRepeated?]
    split
    next h =>
      refine iff_of_false (by simp) ?_
      rintro ⟨_, hnew⟩
      have := hnew s List.mem_cons_self
      rw [h] at this
      cases this
    next h =>
      rw [ih, List.nodup_cons]
      simp only [Std.HashSet.contains_insert, Bool.or_eq_false_iff, beq_eq_false_iff_ne,
        List.forall_mem_cons]
      constructor
      · rintro ⟨hnodup, hrest⟩
        exact ⟨⟨fun hs => (hrest s hs).1 rfl, hnodup⟩, by simpa using h, fun t ht => (hrest t ht).2⟩
      · rintro ⟨⟨hs, hnodup⟩, _, hrest⟩
        exact ⟨hnodup, fun t ht => ⟨fun h => hs (h ▸ ht), hrest t ht⟩⟩

namespace Problem

/-- The problem without symbols and clauses. -/
def empty : Problem := ⟨[], [], List.nodup_nil, by simp⟩

/-- Declare the symbols of given clauses. A repeated symbol is reported before an undeclared one. -/
def declare (clauses : Cnf) (symbols : List Symbol) : Except DeclarationError Problem :=
  match hrepeated : firstRepeated? ∅ symbols with
  | some s => .error (.repeated s)
  | none =>
    match hundeclared : Cnf.firstUndeclared? clauses symbols with
    | some s => .error (.undeclared s)
    | none =>
      .ok
        { clauses
          symbols
          distinct := (firstRepeated?_eq_none_iff.mp hrepeated).1
          declared := Cnf.firstUndeclared?_eq_none_iff.mp hundeclared }

/-- The symbols of a problem with numbered variables: the numbers from one to their count. -/
def numbers (count : Nat) : List Symbol := (List.range' 1 count).map Nat.repr

/-- The greatest number of symbols in a list: a symbol takes sixteen bytes, and the bytes of a list
are counted by a machine word of 64 bits with sign. -/
def symbolCapacity : Nat := (Nat.pow 2 63 - 1) / 16

/-- List the numbers up to a count, unless they are too many for a list. -/
def listNumbers (count : Nat) : Except Fault (List Symbol) :=
  if count ≤ symbolCapacity then .ok (numbers count) else .error .capacity

/-- Declare a given number of numbered variables for given clauses. The variables are listed before
the clauses are looked at. -/
def ofVariables (clauses : Cnf) (count : Nat) : Except Fault (Except DeclarationError Problem) :=
  match listNumbers count with
  | .ok symbols => .ok (declare clauses symbols)
  | .error fault => .error fault

/-- The number of declared symbols. -/
def variableCount (p : Problem) : Nat := p.symbols.length

/-- The number of clauses. -/
def clauseCount (p : Problem) : Nat := p.clauses.length

/-- The number of literals in all clauses, repetitions included. -/
def literalCount (p : Problem) : Nat := p.clauses.foldl (fun n c => n + c.length) 0

/-- Whether an assignment gives a value to exactly the declared symbols and satisfies all clauses. -/
def verify (p : Problem) (a : Assignment) : Bool :=
  a.size == p.symbols.length && p.symbols.all a.isAssigned && Cnf.allSatisfied p.clauses a

/-- The written form of a model: its literals in the order of the declared symbols. -/
def formatModel (p : Problem) (a : Assignment) : String :=
  " ".intercalate ((a.inOrder p.symbols).map Literal.text)

/-- What is declared keeps its clauses and symbols. -/
theorem of_declare_eq_ok {clauses : Cnf} {symbols : List Symbol} {p : Problem}
    (h : declare clauses symbols = .ok p) : p.clauses = clauses ∧ p.symbols = symbols := by
  rw [declare] at h
  split at h
  · cases h
  · split at h
    · cases h
    · cases h
      exact ⟨rfl, rfl⟩

end Problem

end CnfSearch

import CnfSearch.Backtrack.Branch
import CnfSearch.Log

set_option autoImplicit false

/-!
# Backtracking search

The search keeps a current branch and the alternatives of its decisions, the latest first. A
decision tries the value true and leaves the value false for later; a branch that is given up
hands over to the latest alternative, and when none is left there is no model. Every step lowers
the weight of the search (`Search.weight_step`), so `Search.run` needs no bound on its steps.
-/

namespace CnfSearch.Backtrack

/-- A search under way: the current branch, the waiting alternatives and the work so far. -/
structure Search where
  current : Branch
  pending : List Branch
  counters : Counters

/-- What a step leads to. -/
inductive Step where
  | next (search : Search)
  | finish (answer : Answer) (counters : Counters)

namespace Search

/-- The search over given symbols before its first step. -/
def start (symbols : List Symbol) : Search := ⟨⟨symbols, .empty⟩, [], {}⟩

/-- Give up the current branch and go on with the latest alternative. -/
def giveUp (pending : List Branch) (counters : Counters) : Step :=
  match pending with
  | [] => .finish (.error .unsatisfiable) counters
  | b :: rest => .next ⟨b, rest, counters⟩

/-- Make the move that is due on the current branch. -/
def step (f : Formula) (s : Search) : Except Fault Step :=
  match s.current.move f with
  | .succeed =>
    match s.current.complete with
    | .ok model => .ok (.finish (.ok model) s.counters)
    | .error fault => .error fault
  | .conflict =>
    .ok (giveUp s.pending { s.counters with conflicts := s.counters.conflicts + 1 })
  | .pure l =>
    match s.current.follow l with
    | .ok b =>
      .ok (.next ⟨b, s.pending, { s.counters with pureLiterals := s.counters.pureLiterals + 1 }⟩)
    | .error fault => .error fault
  | .unit l =>
    match s.current.follow l with
    | .ok b =>
      .ok (.next ⟨b, s.pending, { s.counters with propagations := s.counters.propagations + 1 }⟩)
    | .error fault => .error fault
  -- A branch on which nothing is open counts as no conflict.
  | .exhausted => .ok (giveUp s.pending s.counters)
  | .decide x rest =>
    match s.current.decide x rest false, s.current.decide x rest true with
    | .ok low, .ok high =>
      .ok (.next ⟨high, low :: s.pending,
        { s.counters with decisions := s.counters.decisions + 1 }⟩)
    | .error fault, _ => .error fault
    | _, .error fault => .error fault

/-! ## The weight of a search -/

/-- The weight of branches: three to the power of the openness of each, added up. -/
def weightOf (f : Formula) : List Branch → Nat
  | [] => 0
  | b :: rest => Nat.pow 3 (b.openness f) + weightOf f rest

/-- The weight of all branches that are left. A decision replaces one of them by two that are less
open, and so of less than its weight together. -/
def weight (f : Formula) (s : Search) : Nat := weightOf f (s.current :: s.pending)

theorem weight_giveUp {f : Formula} {s t : Search} {counters : Counters}
    (h : giveUp s.pending counters = .next t) : t.weight f < s.weight f := by
  rw [giveUp.eq_def] at h
  split at h
  · cases h
  next b rest hpending =>
    cases h
    have hpos : 0 < Nat.pow 3 (s.current.openness f) := Nat.pow_pos (by decide)
    simp only [weight, weightOf, hpending]
    omega

theorem weight_of_less_open {f : Formula} {s : Search} {b : Branch} {counters : Counters}
    (h : b.openness f < s.current.openness f) :
    weight f ⟨b, s.pending, counters⟩ < s.weight f := by
  have hpow : Nat.pow 3 (b.openness f) < Nat.pow 3 (s.current.openness f) :=
    Nat.pow_lt_pow_right (by decide) h
  simp only [weight, weightOf]
  omega

theorem weight_of_split {f : Formula} {s : Search} {high low : Branch} {counters : Counters}
    (hhigh : high.openness f < s.current.openness f)
    (hlow : low.openness f < s.current.openness f) :
    weight f ⟨high, low :: s.pending, counters⟩ < s.weight f := by
  obtain ⟨n, hn⟩ : ∃ n, s.current.openness f = n + 1 :=
    ⟨s.current.openness f - 1, by omega⟩
  have hhigh' : Nat.pow 3 (high.openness f) ≤ Nat.pow 3 n :=
    Nat.pow_le_pow_right (by decide) (by omega)
  have hlow' : Nat.pow 3 (low.openness f) ≤ Nat.pow 3 n :=
    Nat.pow_le_pow_right (by decide) (by omega)
  have hpos : 0 < Nat.pow 3 n := Nat.pow_pos (by decide)
  have hsucc : Nat.pow 3 (n + 1) = Nat.pow 3 n * 3 := rfl
  simp only [weight, weightOf, hn, hsucc]
  omega

/-- Every step that goes on lowers the weight. -/
theorem weight_step {f : Formula} {s t : Search} (h : s.step f = .ok (.next t)) :
    t.weight f < s.weight f := by
  rw [step] at h
  split at h
  next => split at h <;> cases h
  next =>
    have hgiveUp : giveUp s.pending _ = .next t := Except.ok.inj h
    exact weight_giveUp hgiveUp
  next l hmove =>
    split at h
    next b hfollow =>
      cases h
      exact weight_of_less_open (Branch.openness_follow_pure hmove hfollow)
    next => cases h
  next l hmove =>
    split at h
    next b hfollow =>
      cases h
      exact weight_of_less_open (Branch.openness_follow_unit hmove hfollow)
    next => cases h
  next =>
    have hgiveUp : giveUp s.pending _ = .next t := Except.ok.inj h
    exact weight_giveUp hgiveUp
  next x rest hmove =>
    split at h
    next low high hlow hhigh =>
      cases h
      exact weight_of_split (Branch.openness_decide hmove hhigh)
        (Branch.openness_decide hmove hlow)
    next => cases h
    next => cases h

/-! ## Runs -/

/-- Step until the search is finished. -/
def run (f : Formula) (s : Search) : Except Fault (Answer × Counters) :=
  match _ : s.step f with
  | .ok (.next t) => run f t
  | .ok (.finish answer counters) => .ok (answer, counters)
  | .error fault => .error fault
termination_by s.weight f
decreasing_by exact weight_step (by assumption)

/-- The states of a run, from the given one on. -/
def states (f : Formula) (s : Search) : List Search :=
  s :: match _ : s.step f with
    | .ok (.next t) => states f t
    | _ => []
termination_by s.weight f
decreasing_by exact weight_step (by assumption)

end Search

/-- What can be told about a step. -/
inductive Event where
  | conflict (assigned : Nat)
  | pure (literal : Literal)
  | unit (literal : Literal)
  | decision (number : Nat) (symbol : Symbol)
  deriving DecidableEq

/-- The sentence about a step. -/
def Event.message : Event → String
  | .conflict assigned => "Conflict with " ++ assigned.repr ++ " symbols assigned."
  | .pure l => "Pure symbol " ++ l.text ++ "."
  | .unit l => "Unit clause " ++ l.text ++ "."
  | .decision number s => "Decision " ++ number.repr ++ " on " ++ s ++ "."

/-- What is told about the step that is due, if anything. -/
def Search.event? (f : Formula) (s : Search) : Option Event :=
  match s.current.move f with
  | .succeed => none
  | .conflict => some (.conflict s.current.model.size)
  | .pure l => some (.pure l)
  | .unit l => some (.unit l)
  | .exhausted => none
  | .decide x _ => some (.decision (s.counters.decisions + 1) x)

/-- Search for a model of clauses whose symbols are declared. -/
def search (cnf : Cnf) (symbols : List Symbol) : Except Fault (Answer × Counters) :=
  (Search.start symbols).run (.ofCnf cnf)

/-- What is told about the steps of a search. -/
def events (cnf : Cnf) (symbols : List Symbol) : List Event :=
  let f := Formula.ofCnf cnf
  ((Search.start symbols).states f).filterMap (Search.event? f)

/-- The log of a search: its size, its steps, and its end unless a fault stops it. -/
def log (cnf : Cnf) (symbols : List Symbol) : List LogEntry :=
  let opening := "Solving " ++ cnf.length.repr ++ " clauses over " ++ symbols.length.repr
    ++ " symbols."
  let closing := match search cnf symbols with
    | .ok (.ok _, counters) => ["Satisfiable after " ++ counters.decisions.repr ++ " decisions."]
    | .ok (.error _, counters) =>
      ["Unsatisfiable after " ++ counters.decisions.repr ++ " decisions."]
    | .error _ => []
  [⟨.debug, "dpll", opening⟩]
    ++ (events cnf symbols).map (fun event => ⟨.trace, "dpll", event.message⟩)
    ++ closing.map fun message => ⟨.debug, "dpll", message⟩

end CnfSearch.Backtrack

import CnfSearch.Backtrack.Branch

set_option autoImplicit false

/-!
# Backtracking as a recursion

The textbook form of the search, written out on the open symbols and the partial assignment. A call
succeeds if every clause is satisfied and gives up if one is falsified; otherwise it goes on with
the first pure literal, otherwise with the first open unit literal, and otherwise it tries the first
open symbol with the value true and, only if that finds nothing, with the value false. It counts its
work like the search with waiting alternatives and serves as its second definition.
-/

namespace CnfSearch.Backtrack

/-- Give symbols the value true, one after another. -/
def fill (model : Assignment) : List Symbol → Except Fault Assignment
  | [] => .ok model
  | s :: rest =>
    match model.assign ⟨s, true⟩ with
    | .ok extended => fill extended rest
    | .error fault => .error fault

/-- Explore what a partial assignment leaves open, given the work before it: the first model found,
if any, and the work after it. -/
def explore (cnf : Cnf) (remaining : List Symbol) (model : Assignment) (c : Counters) :
    Except Fault (Option Assignment × Counters) :=
  if Cnf.allSatisfied cnf model then
    match fill model remaining with
    | .ok filled => .ok (some filled, c)
    | .error fault => .error fault
  else if Cnf.anyFalsified cnf model then .ok (none, { c with conflicts := c.conflicts + 1 })
  else
    match _ : firstPure? (pureLiterals cnf) remaining with
    | some l =>
      match _ : model.assign l with
      | .ok extended =>
        explore cnf (remaining.erase l.symbol) extended
          { c with pureLiterals := c.pureLiterals + 1 }
      | .error fault => .error fault
    | none =>
      match _ : firstUnit? cnf model with
      | some l =>
        match _ : model.assign l with
        | .ok extended =>
          explore cnf (remaining.erase l.symbol) extended
            { c with propagations := c.propagations + 1 }
        | .error fault => .error fault
      | none =>
        match remaining with
        | [] => .ok (none, c)
        | s :: rest =>
          match _ : model.assign ⟨s, true⟩ with
          | .error fault => .error fault
          | .ok high =>
            match explore cnf rest high { c with decisions := c.decisions + 1 } with
            | .error fault => .error fault
            | .ok (some found, c) => .ok (some found, c)
            | .ok (none, c) =>
              -- Only if the value true finds nothing is the other one tried.
              match _ : model.assign ⟨s, false⟩ with
              | .ok low => explore cnf rest low c
              | .error fault => .error fault
termination_by Branch.openness (.ofCnf cnf) ⟨remaining, model⟩
decreasing_by
  · exact Branch.openness_erase_pure (by assumption) (by assumption)
  · exact Branch.openness_erase_unit (by assumption) (by assumption)
  · exact Branch.openness_tail (by assumption)
  · exact Branch.openness_tail (by assumption)

/-- The answer of the recursion on clauses whose symbols are declared. -/
def exploreAll (cnf : Cnf) (symbols : List Symbol) : Except Fault (Answer × Counters) :=
  match explore cnf symbols .empty {} with
  | .ok (some model, counters) => .ok (.ok model, counters)
  | .ok (none, counters) => .ok (.error .unsatisfiable, counters)
  | .error fault => .error fault

end CnfSearch.Backtrack

import CnfSearch.Formula.Occurrences
import CnfSearch.Model.Satisfaction
import CnfSearch.Search.Outcome

set_option autoImplicit false

/-!
# Branches of a backtracking search

A branch is a partial assignment together with the symbols that it leaves open. This module says
which move is due on a branch: stop with a model, give the branch up, follow a pure literal, follow
a unit clause, or decide the first open symbol. `Branch.Due` lists, for each move, the tests that
were passed over and the one that applied, and what a search does on a branch is read off `Due`,
never off the nested tests of `Branch.move`. The measure `Branch.openness` goes down with every move
that stays on a branch.
-/

namespace CnfSearch.Backtrack

/-- The literals whose opposite stands in no clause, in the order of their first occurrence. -/
def pureLiterals (cnf : Cnf) : List Literal :=
  let occurrences := Occurrences.ofCnf cnf
  ((Cnf.literals cnf).filter fun l => occurrences.count l.opposite == 0).eraseDups

/-- The first literal of the clauses that is pure and whose symbol is open. -/
def firstPure? (pures : List Literal) (remaining : List Symbol) : Option Literal :=
  pures.find? fun l => remaining.contains l.symbol

/-- The literal of a clause that has only this one, unless it is true. -/
def openUnit? (a : Assignment) (c : Clause) : Option Literal :=
  c.sole?.filter fun l => !a.holds l

/-- The literal of the first unit clause that is not true. -/
def firstUnit? (cnf : Cnf) (a : Assignment) : Option Literal := cnf.findSome? (openUnit? a)

/-- A clause list with its pure literals, which are found once for a whole search. -/
structure Formula where
  clauses : Cnf
  pures : List Literal
  pures_eq : pures = pureLiterals clauses

/-- Find the pure literals of a clause list. -/
def Formula.ofCnf (cnf : Cnf) : Formula := ⟨cnf, pureLiterals cnf, rfl⟩

/-- A partial assignment and the symbols that it leaves open, in declaration order. -/
structure Branch where
  remaining : List Symbol
  model : Assignment

/-- What is due on a branch. -/
inductive Move where
  /-- Every clause is satisfied. -/
  | succeed
  /-- Some clause is falsified. -/
  | conflict
  /-- A literal is pure. -/
  | pure (literal : Literal)
  /-- A clause has a single literal, which is not true. -/
  | unit (literal : Literal)
  /-- No symbol is open. -/
  | exhausted
  /-- The first open symbol has to be decided. -/
  | decide (symbol : Symbol) (rest : List Symbol)

namespace Branch

/-- The due move: the first one of the list that applies. -/
def move (f : Formula) (b : Branch) : Move :=
  if Cnf.allSatisfied f.clauses b.model then .succeed
  else if Cnf.anyFalsified f.clauses b.model then .conflict
  else
    match firstPure? f.pures b.remaining with
    | some l => .pure l
    | none =>
      match firstUnit? f.clauses b.model with
      | some l => .unit l
      | none =>
        match b.remaining with
        | [] => .exhausted
        | s :: rest => .decide s rest

/-- Assign a literal and close its symbol. -/
def follow (b : Branch) (l : Literal) : Except Fault Branch :=
  match b.model.assign l with
  | .ok model => .ok ⟨b.remaining.erase l.symbol, model⟩
  | .error fault => .error fault

/-- Decide the first open symbol. -/
def decide (b : Branch) (s : Symbol) (rest : List Symbol) (value : Bool) : Except Fault Branch :=
  match b.model.assign ⟨s, value⟩ with
  | .ok model => .ok ⟨rest, model⟩
  | .error fault => .error fault

/-- Give all open symbols the value true, in their order. -/
def complete (b : Branch) : Except Fault Assignment :=
  b.model.assignAll (b.remaining.map fun s => ⟨s, true⟩)

/-! ## When a move is due -/

/-- Not all clauses are satisfied and none is falsified. -/
structure Undecided (f : Formula) (b : Branch) : Prop where
  unsatisfied : Cnf.allSatisfied f.clauses b.model = false
  unfalsified : Cnf.anyFalsified f.clauses b.model = false

/-- The tests by which each move becomes due. -/
inductive Due (f : Formula) (b : Branch) : Move → Prop where
  | succeed (satisfied : Cnf.allSatisfied f.clauses b.model = true) : Due f b .succeed
  | conflict (unsatisfied : Cnf.allSatisfied f.clauses b.model = false)
      (falsified : Cnf.anyFalsified f.clauses b.model = true) : Due f b .conflict
  | pure {l : Literal} (undecided : b.Undecided f)
      (first : firstPure? f.pures b.remaining = some l) : Due f b (.pure l)
  | unit {l : Literal} (undecided : b.Undecided f) (noPure : firstPure? f.pures b.remaining = none)
      (first : firstUnit? f.clauses b.model = some l) : Due f b (.unit l)
  | exhausted (undecided : b.Undecided f) (noPure : firstPure? f.pures b.remaining = none)
      (noUnit : firstUnit? f.clauses b.model = none) (closed : b.remaining = []) :
      Due f b .exhausted
  | decide {s : Symbol} {rest : List Symbol} (undecided : b.Undecided f)
      (noPure : firstPure? f.pures b.remaining = none)
      (noUnit : firstUnit? f.clauses b.model = none) (first : b.remaining = s :: rest) :
      Due f b (.decide s rest)

theorem due_move (f : Formula) (b : Branch) : b.Due f (b.move f) := by
  rw [move]
  split
  next satisfied => exact .succeed satisfied
  next unsatisfied =>
    rw [Bool.not_eq_true] at unsatisfied
    split
    next falsified => exact .conflict unsatisfied falsified
    next unfalsified =>
      rw [Bool.not_eq_true] at unfalsified
      have undecided : b.Undecided f := ⟨unsatisfied, unfalsified⟩
      split
      next l hpure => exact .pure undecided hpure
      next noPure =>
        split
        next l hunit => exact .unit undecided noPure hunit
        next noUnit =>
          split
          next closed => exact .exhausted undecided noPure noUnit closed
          next s rest first => exact .decide undecided noPure noUnit first

section Move

variable {f : Formula} {b d : Branch} {l : Literal} {s : Symbol} {rest : List Symbol}

/-- A pure literal is followed only if it is the first one of an open symbol. -/
theorem firstPure?_of_move (h : b.move f = .pure l) : firstPure? f.pures b.remaining = some l := by
  have due := b.due_move f
  rw [h] at due
  cases due with
  | pure undecided first => exact first

/-- A unit clause is followed only if it is the first open one. -/
theorem firstUnit?_of_move (h : b.move f = .unit l) : firstUnit? f.clauses b.model = some l := by
  have due := b.due_move f
  rw [h] at due
  cases due with
  | unit undecided noPure first => exact first

/-- The decided symbol is the first open one. -/
theorem remaining_of_move (h : b.move f = .decide s rest) : b.remaining = s :: rest := by
  have due := b.due_move f
  rw [h] at due
  cases due with
  | decide undecided noPure noUnit first => exact first

/-- Following a literal assigns it and closes its symbol. -/
theorem follow_eq_ok_iff : b.follow l = .ok d ↔
    b.model.assign l = .ok d.model ∧ d.remaining = b.remaining.erase l.symbol := by
  rw [follow]
  split
  next model hassign =>
    constructor
    · intro h
      cases h
      exact ⟨hassign, rfl⟩
    · rintro ⟨hmodel, hremaining⟩
      obtain rfl : model = d.model := Except.ok.inj (hassign.symm.trans hmodel)
      rw [← hremaining]
  next fault hassign =>
    rw [hassign]
    refine iff_of_false (fun h => ?_) (fun h => ?_)
    · cases h
    · cases h.1

/-- To decide the first open symbol is to follow its literal. -/
theorem decide_eq_follow {value : Bool} (first : b.remaining = s :: rest) :
    b.decide s rest value = b.follow ⟨s, value⟩ := by
  simp only [decide, follow, first, List.erase_cons_head]

end Move

/-! ## The measure of a branch -/

/-- The number of unit clauses that are not true. -/
def openUnits (cnf : Cnf) (a : Assignment) : Nat := cnf.countP fun c => (openUnit? a c).isSome

/-- The number of open symbols and of unit clauses that are not true. -/
def openness (f : Formula) (b : Branch) : Nat := b.remaining.length + openUnits f.clauses b.model

theorem openUnit?_eq_some_iff {a : Assignment} {c : Clause} {l : Literal} :
    openUnit? a c = some l ↔ c.sole? = some l ∧ a.holds l = false := by
  simp [openUnit?, Option.filter_eq_some_iff]

/-- What an assignment holds, it holds after a further literal. -/
theorem holds_of_assign {a b : Assignment} {k l : Literal} (h : a.assign k = .ok b)
    (held : a.holds l = true) : b.holds l = true := by
  rw [Assignment.holds_iff] at held ⊢
  rw [Assignment.toList_assign h]
  exact List.mem_append_left [k] held

/-- A further literal opens no unit clause. -/
theorem isSome_openUnit?_of_assign {a b : Assignment} {k : Literal} {c : Clause}
    (h : a.assign k = .ok b) (hopen : (openUnit? b c).isSome = true) :
    (openUnit? a c).isSome = true := by
  obtain ⟨l, hl⟩ := Option.isSome_iff_exists.mp hopen
  rw [openUnit?_eq_some_iff] at hl
  refine Option.isSome_iff_exists.mpr ⟨l, openUnit?_eq_some_iff.mpr ⟨hl.1, ?_⟩⟩
  cases held : a.holds l with
  | false => rfl
  | true =>
    have := holds_of_assign h held
    rw [hl.2] at this
    cases this

theorem openUnits_assign_le {cnf : Cnf} {a b : Assignment} {k : Literal}
    (h : a.assign k = .ok b) : openUnits cnf b ≤ openUnits cnf a :=
  List.countP_mono_left fun _ _ => isSome_openUnit?_of_assign h

/-- The literal of an open unit clause closes that clause. -/
theorem openUnits_assign_lt {cnf : Cnf} {a b : Assignment} {l : Literal}
    (hunit : firstUnit? cnf a = some l) (h : a.assign l = .ok b) :
    openUnits cnf b < openUnits cnf a := by
  -- The clauses before and behind the unit clause open no further unit.
  obtain ⟨before, c, after, rfl, hc, _⟩ := List.findSome?_eq_some_iff.mp hunit
  have was : (openUnit? a c).isSome = true := by rw [hc]; rfl
  have now : (openUnit? b c).isSome = false := by
    cases hopen : openUnit? b c with
    | none => rfl
    | some k =>
      rw [openUnit?_eq_some_iff] at hc hopen
      have same : k = l := Option.some.inj (hopen.1.symm.trans hc.1)
      have held : b.holds l = true := by
        rw [Assignment.holds_iff, Assignment.toList_assign h]
        simp
      rw [same, held] at hopen
      exact absurd hopen.2 (by simp)
  have hbefore : openUnits before b ≤ openUnits before a := openUnits_assign_le h
  have hafter : openUnits after b ≤ openUnits after a := openUnits_assign_le h
  simp only [openUnits, List.countP_append, List.countP_cons, was, now] at hbefore hafter ⊢
  simp only [Bool.false_eq_true, ↓reduceIte]
  omega

section Openness

variable {f : Formula} {remaining rest : List Symbol} {model extended : Assignment}
  {l : Literal} {s : Symbol}

/-- A literal of an open symbol closes that symbol. -/
theorem openness_erase_of_mem (hopen : l.symbol ∈ remaining) (h : model.assign l = .ok extended) :
    openness f ⟨remaining.erase l.symbol, extended⟩ < openness f ⟨remaining, model⟩ := by
  have hunits : openUnits f.clauses extended ≤ openUnits f.clauses model := openUnits_assign_le h
  have hlen := List.length_erase_of_mem hopen
  have hpos := List.length_pos_of_mem hopen
  simp only [openness]
  omega

theorem openness_erase_pure (first : firstPure? f.pures remaining = some l)
    (h : model.assign l = .ok extended) :
    openness f ⟨remaining.erase l.symbol, extended⟩ < openness f ⟨remaining, model⟩ := by
  apply openness_erase_of_mem _ h
  simpa using List.find?_some first

/-- A unit literal closes its clause, whether or not its symbol is open. -/
theorem openness_erase_unit (first : firstUnit? f.clauses model = some l)
    (h : model.assign l = .ok extended) :
    openness f ⟨remaining.erase l.symbol, extended⟩ < openness f ⟨remaining, model⟩ := by
  have hunits := openUnits_assign_lt first h
  have hlen : (remaining.erase l.symbol).length ≤ remaining.length := List.length_erase_le
  simp only [openness]
  omega

/-- The first open symbol is closed by either value. -/
theorem openness_tail {value : Bool} (h : model.assign ⟨s, value⟩ = .ok extended) :
    openness f ⟨rest, extended⟩ < openness f ⟨s :: rest, model⟩ := by
  have closes := openness_erase_of_mem (f := f) (List.mem_cons_self (l := rest)) h
  rwa [List.erase_cons_head] at closes

variable {b d : Branch}

theorem openness_follow_pure (hmove : b.move f = .pure l) (h : b.follow l = .ok d) :
    d.openness f < b.openness f := by
  obtain ⟨hassign, hremaining⟩ := follow_eq_ok_iff.mp h
  have closes := openness_erase_pure (firstPure?_of_move hmove) hassign
  rwa [← hremaining] at closes

theorem openness_follow_unit (hmove : b.move f = .unit l) (h : b.follow l = .ok d) :
    d.openness f < b.openness f := by
  obtain ⟨hassign, hremaining⟩ := follow_eq_ok_iff.mp h
  have closes : openness f ⟨b.remaining.erase l.symbol, d.model⟩ < b.openness f :=
    openness_erase_unit (firstUnit?_of_move hmove) hassign
  rwa [← hremaining] at closes

theorem openness_decide {value : Bool} (hmove : b.move f = .decide s rest)
    (h : b.decide s rest value = .ok d) : d.openness f < b.openness f := by
  have first := remaining_of_move hmove
  rw [decide_eq_follow first, follow_eq_ok_iff, first, List.erase_cons_head] at h
  have closes : openness f ⟨rest, d.model⟩ < openness f ⟨s :: rest, b.model⟩ := openness_tail h.1
  rwa [← first, ← h.2] at closes

end Openness

end Branch

end CnfSearch.Backtrack

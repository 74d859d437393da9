import CnfSearch.Formula.Literal
import Std.Data.HashMap

set_option autoImplicit false

/-!
# Assignments

An assignment gives truth values to some symbols. It keeps its literals in the order in which they
were assigned and an index from each symbol to its position. Its view is `Assignment.toList`: every
operation is described by one statement about that list, among them `toList_extend`, `toList_flip`
and `find?_eq_some_iff`.
-/

namespace CnfSearch

/-- What aborts the program. No search over a well-formed problem meets one of the first two. -/
inductive Fault where
  /-- A symbol was to be given a value although it has one. -/
  | reassigned (symbol : Symbol)
  /-- An assignment satisfied not every clause and falsified none. -/
  | undecided
  /-- A list was to hold more elements than can be addressed. -/
  | capacity
  deriving DecidableEq

/-- A partial assignment: literals in assignment order, and the position of each symbol. -/
structure Assignment where
  literals : Array Literal
  index : Std.HashMap Symbol Nat
  index_iff : ∀ (s : Symbol) (i : Nat),
    index[s]? = some i ↔ ∃ h : i < literals.size, (literals[i]).symbol = s

namespace Assignment

/-- The assignment that gives no symbol a value. -/
def empty : Assignment where
  literals := #[]
  index := ∅
  index_iff := by simp

/-- An assignment that gives no symbol a value, with room for a number of literals. -/
def withCapacity (capacity : Nat) : Assignment where
  literals := Array.emptyWithCapacity capacity
  index := Std.HashMap.emptyWithCapacity capacity
  index_iff := by simp

instance : Inhabited Assignment := ⟨empty⟩

/-- The literals in assignment order. -/
def toList (a : Assignment) : List Literal := a.literals.toList

/-- The number of assigned symbols. -/
def size (a : Assignment) : Nat := a.literals.size

/-- Whether no symbol is assigned. -/
def isEmpty (a : Assignment) : Bool := a.literals.isEmpty

/-- Whether a symbol is assigned. -/
def isAssigned (a : Assignment) (s : Symbol) : Bool := a.index.contains s

/-- The literal of a symbol, if it is assigned. -/
def find? (a : Assignment) (s : Symbol) : Option Literal :=
  match a.index[s]? with
  | some i => a.literals[i]?
  | none => none

/-- The truth value of a symbol, if it is assigned. -/
def value? (a : Assignment) (s : Symbol) : Option Bool := (a.find? s).map Literal.positive

/-- The truth value of a literal, if its symbol is assigned. -/
def eval? (a : Assignment) (l : Literal) : Option Bool :=
  (a.value? l.symbol).map fun b => b == l.positive

/-- Whether the assignment makes a literal true. -/
def holds (a : Assignment) (l : Literal) : Bool := a.eval? l == some true

/-- Whether the assignment makes a literal false. -/
def refutes (a : Assignment) (l : Literal) : Bool := a.eval? l == some false

/-- Append a literal whose symbol is not assigned yet. -/
def extend (a : Assignment) (l : Literal) (fresh : a.isAssigned l.symbol = false) : Assignment :=
  -- The position is read before the literals grow, so that they can grow in place.
  let position := a.literals.size
  { literals := a.literals.push l
    index := a.index.insert l.symbol position
    index_iff := by
      intro s i
      rw [Std.HashMap.getElem?_insert]
      by_cases same : l.symbol = s
      · subst same
        have absent : ∀ j, a.index[l.symbol]? ≠ some j := by
          intro j
          rw [isAssigned, ← Bool.not_eq_true] at fresh
          rw [Std.HashMap.getElem?_eq_none (by simpa using fresh)]
          simp
        simp only [beq_self_eq_true, ↓reduceIte, Option.some.injEq, Array.size_push,
          Array.getElem_push]
        constructor
        · intro h
          subst h
          exact ⟨Nat.lt_succ_self _, by simp [position]⟩
        · rintro ⟨h, hs⟩
          split at hs
          next below => exact absurd ((a.index_iff l.symbol i).mpr ⟨below, hs⟩) (absent i)
          next above => omega
      · simp only [beq_iff_eq, same, ↓reduceIte, a.index_iff, Array.size_push, Array.getElem_push]
        constructor
        · rintro ⟨h, hs⟩
          exact ⟨Nat.lt_succ_of_lt h, by simpa [h] using hs⟩
        · rintro ⟨h, hs⟩
          split at hs
          next below => exact ⟨below, hs⟩
          next above => exact absurd hs same }

/-- Append a literal. A symbol that already has a value is not given another one. -/
def assign (a : Assignment) (l : Literal) : Except Fault Assignment :=
  if assigned : a.isAssigned l.symbol = true then .error (.reassigned l.symbol)
  else .ok (a.extend l (by simpa using assigned))

/-- Append literals one after another. -/
def assignAll (a : Assignment) : List Literal → Except Fault Assignment
  | [] => .ok a
  | l :: ls =>
    match a.assign l with
    | .ok b => b.assignAll ls
    | .error fault => .error fault

/-- The assignment of given literals, in their order. -/
def ofLiterals (ls : List Literal) : Except Fault Assignment := empty.assignAll ls

/-- Turn around the value of a symbol in place; a symbol without value stays without. -/
def flip (a : Assignment) (s : Symbol) : Assignment :=
  match a.index[s]? with
  | none => a
  | some i =>
    { literals := a.literals.modify i Literal.opposite
      index := a.index
      index_iff := by
        intro t j
        rw [a.index_iff]
        simp only [Array.size_modify, Array.getElem_modify]
        constructor
        · rintro ⟨h, ht⟩
          exact ⟨h, by split <;> simpa using ht⟩
        · rintro ⟨h, ht⟩
          refine ⟨h, ?_⟩
          split at ht <;> simpa using ht }

/-- Turn around the value of a symbol in place, and tell whether it has one. -/
def isAssignedThenFlip (a : Assignment) (s : Symbol) : Bool × Assignment :=
  match a.index[s]? with
  | none => (false, a)
  | some _ => (true, a.flip s)

/-- The literals of the assigned symbols of a list, in the order of that list. -/
def inOrder (a : Assignment) (symbols : List Symbol) : List Literal := symbols.filterMap a.find?

/-- The true symbols that are signed numerals of 32 bits, as numbers in ascending order. -/
def trueVariables (a : Assignment) : List Int :=
  ((a.toList.filter Literal.positive).filterMap fun l => Text.signed32? l.symbol.toList).mergeSort

/-- The written form: the literals in assignment order, one blank apart. -/
def text (a : Assignment) : String := " ".intercalate (a.toList.map Literal.text)

/-- Two assignments are equal when they give the same values, in whatever order they got them. -/
instance : BEq Assignment where
  beq a b := a.size == b.size && a.toList.all b.holds

/-! ## Operations through the list view -/

@[simp] theorem toList_empty : empty.toList = [] := rfl

@[simp] theorem toList_withCapacity (capacity : Nat) : (withCapacity capacity).toList = [] := by
  simp [withCapacity, toList]

theorem size_eq_length_toList (a : Assignment) : a.size = a.toList.length := by
  simp [size, toList]

@[simp] theorem toList_extend (a : Assignment) (l : Literal) (fresh : a.isAssigned l.symbol = false) :
    (a.extend l fresh).toList = a.toList ++ [l] := by
  simp [extend, toList]

/-- A symbol is assigned exactly if a literal of the list has it. -/
theorem isAssigned_iff (a : Assignment) (s : Symbol) :
    a.isAssigned s = true ↔ ∃ l ∈ a.toList, l.symbol = s := by
  constructor
  · intro h
    have found : s ∈ a.index := by simpa [isAssigned] using h
    obtain ⟨i, hi⟩ : ∃ i, a.index[s]? = some i := by
      rw [Std.HashMap.getElem?_eq_some_getElem found]
      exact ⟨_, rfl⟩
    obtain ⟨hlt, hs⟩ := (a.index_iff s i).mp hi
    exact ⟨a.literals[i], by simp [toList], hs⟩
  · rintro ⟨l, hl, hs⟩
    obtain ⟨i, hlt, hi⟩ := List.mem_iff_getElem.mp hl
    have hlt' : i < a.literals.size := by simpa [toList] using hlt
    have here : a.index[s]? = some i := by
      refine (a.index_iff s i).mpr ⟨hlt', ?_⟩
      have : a.literals[i] = l := by simpa [toList] using hi
      rw [this, hs]
    rw [isAssigned, Std.HashMap.contains_eq_isSome_getElem?, here]
    rfl

/-- No two literals of an assignment have one symbol. -/
theorem nodup_symbols (a : Assignment) : (a.toList.map Literal.symbol).Nodup := by
  rw [List.Nodup, List.pairwise_iff_getElem]
  intro i j hi hj hij same
  have hi' : i < a.literals.size := by simpa [toList] using hi
  have hj' : j < a.literals.size := by simpa [toList] using hj
  have hs : (a.literals[i]).symbol = (a.literals[j]).symbol := by
    simpa [toList] using same
  -- Both positions are the index of the one symbol.
  have first := (a.index_iff _ i).mpr ⟨hi', hs⟩
  have second := (a.index_iff _ j).mpr ⟨hj', rfl⟩
  rw [first] at second
  exact Nat.ne_of_lt hij (Option.some.inj second)

/-- A look-up finds the literal of the list with the wanted symbol. -/
theorem find?_eq_some_iff (a : Assignment) (s : Symbol) (l : Literal) :
    a.find? s = some l ↔ l ∈ a.toList ∧ l.symbol = s := by
  rw [find?]
  split
  next i hi =>
    obtain ⟨hlt, hs⟩ := (a.index_iff s i).mp hi
    rw [Array.getElem?_eq_getElem hlt, Option.some.injEq]
    constructor
    · intro h
      subst h
      exact ⟨by simp [toList], hs⟩
    · rintro ⟨hl, hls⟩
      obtain ⟨j, hlt', hj⟩ := List.mem_iff_getElem.mp hl
      have hjlt : j < a.literals.size := by simpa [toList] using hlt'
      have hjl : a.literals[j] = l := by simpa [toList] using hj
      -- A symbol has one position, so the literal found there is the given one.
      have here := (a.index_iff s j).mpr ⟨hjlt, by rw [hjl, hls]⟩
      rw [hi] at here
      cases here
      exact hjl
  next hnone =>
    constructor
    · intro h
      cases h
    · rintro ⟨hl, hls⟩
      have there := (a.isAssigned_iff s).mpr ⟨l, hl, hls⟩
      rw [isAssigned, Std.HashMap.contains_eq_isSome_getElem?, hnone] at there
      cases there

/-- A literal is true exactly if it is one of the assignment's. -/
theorem holds_iff (a : Assignment) (l : Literal) : a.holds l = true ↔ l ∈ a.toList := by
  simp only [holds, eval?, value?, Option.map_map, beq_iff_eq, Option.map_eq_some_iff,
    Function.comp_apply]
  constructor
  · rintro ⟨k, hk, same⟩
    obtain ⟨hmem, hs⟩ := (a.find?_eq_some_iff _ _).mp hk
    have : k = l := by
      cases k
      cases l
      simp_all
    exact this ▸ hmem
  · intro h
    exact ⟨l, (a.find?_eq_some_iff _ _).mpr ⟨h, rfl⟩, by simp⟩

/-- A literal is false exactly if its opposite is one of the assignment's. -/
theorem refutes_iff (a : Assignment) (l : Literal) :
    a.refutes l = true ↔ l.opposite ∈ a.toList := by
  simp only [refutes, eval?, value?, Option.map_map, beq_iff_eq, Option.map_eq_some_iff,
    Function.comp_apply]
  constructor
  · rintro ⟨k, hk, differ⟩
    obtain ⟨hmem, hs⟩ := (a.find?_eq_some_iff _ _).mp hk
    have : k = l.opposite := by
      rcases Literal.eq_or_eq_opposite hs with h | h
      · subst h
        simp at differ
      · exact h
    exact this ▸ hmem
  · intro h
    exact ⟨l.opposite, (a.find?_eq_some_iff _ _).mpr ⟨h, rfl⟩, by simp⟩

/-- An assignment step succeeds exactly on a fresh symbol, and appends the literal. -/
theorem assign_eq_ok_iff {a b : Assignment} {l : Literal} :
    a.assign l = .ok b ↔ ∃ fresh : a.isAssigned l.symbol = false, b = a.extend l fresh := by
  rw [assign]
  split
  next h =>
    constructor
    · intro hb
      cases hb
    · rintro ⟨fresh, _⟩
      rw [h] at fresh
      cases fresh
  next h =>
    constructor
    · intro hb
      cases hb
      exact ⟨by simpa using h, rfl⟩
    · rintro ⟨_, rfl⟩
      rfl

theorem toList_assign {a b : Assignment} {l : Literal} (h : a.assign l = .ok b) :
    b.toList = a.toList ++ [l] := by
  obtain ⟨fresh, rfl⟩ := assign_eq_ok_iff.mp h
  simp

/-- A flip turns around the literal of one symbol and keeps the order. -/
theorem toList_flip (a : Assignment) (s : Symbol) :
    (a.flip s).toList = a.toList.map fun l => if l.symbol = s then l.opposite else l := by
  rw [flip]
  split
  next hnone =>
    have unchanged : ∀ l ∈ a.toList, (if l.symbol = s then l.opposite else l) = id l := by
      intro l hl
      have other : l.symbol ≠ s := by
        intro hs
        have there := (a.isAssigned_iff s).mpr ⟨l, hl, hs⟩
        rw [isAssigned, Std.HashMap.contains_eq_isSome_getElem?, hnone] at there
        cases there
      simp [other]
    rw [List.map_congr_left unchanged, List.map_id]
  next i hi =>
    obtain ⟨hlt, hs⟩ := (a.index_iff s i).mp hi
    -- Position by position: only the one of the symbol is modified.
    apply List.ext_getElem
    · simp [toList]
    · intro j hj hj'
      have hjlt : j < a.literals.size := by simpa [toList] using hj'
      simp only [toList, Array.getElem_toList, Array.getElem_modify, List.getElem_map]
      by_cases hij : i = j
      · subst hij
        simp [hs]
      · have : (a.literals[j]).symbol ≠ s := by
          intro hjs
          have here := (a.index_iff s j).mpr ⟨hjlt, hjs⟩
          rw [hi] at here
          exact hij (Option.some.inj here)
        simp [hij, this]

/-- What is told before a flip is whether the symbol is assigned. -/
theorem isAssignedThenFlip_eq (a : Assignment) (s : Symbol) :
    a.isAssignedThenFlip s = (a.isAssigned s, a.flip s) := by
  rw [isAssignedThenFlip, isAssigned, Std.HashMap.contains_eq_isSome_getElem?]
  cases h : a.index[s]? with
  | none => simp [flip, h]
  | some i => simp

end Assignment

end CnfSearch

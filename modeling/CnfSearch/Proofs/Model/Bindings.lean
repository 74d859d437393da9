import CnfSearch.Proofs.Model.Symbols

set_option autoImplicit false

/-!
# Assignments as lists of bindings

An ordered partial function from symbols to truth values is a list of pairs without a repeated
symbol. `Assignment.bindings` is that list for an assignment, and every question that an assignment
answers through its index is answered by the list alone (`Assignment.answersAs_bindings`). The index
takes each symbol of the list to its position and knows no other one (`Assignment.indexed`).
-/

namespace CnfSearch

/-- Symbols with their truth values, in the order in which they got them. -/
abbrev Bindings := List (Symbol × Bool)

namespace Bindings

/-- The symbols that have a value. -/
def symbols (b : Bindings) : List Symbol := b.map Prod.fst

/-- Append a binding. A symbol that already has a value is not given another one. -/
def assign (b : Bindings) (l : Literal) : Except Fault Bindings :=
  if l.symbol ∈ b.symbols then .error (.reassigned l.symbol)
  else .ok (b ++ [(l.symbol, l.positive)])

/-- Append bindings one after another. -/
def assignAll (b : Bindings) (ls : List Literal) : Except Fault Bindings := ls.foldlM assign b

/-- Turn around the value of a symbol in place. -/
def flip (b : Bindings) (s : Symbol) : Bindings :=
  b.map fun p => if p.1 = s then (p.1, !p.2) else p

/-- The literal that asserts a binding. -/
def literal : Symbol × Bool → Literal
  | (s, value) => ⟨s, value⟩

/-- The written form: the symbols, each after a minus sign if it is false, one blank apart. -/
def text (b : Bindings) : String :=
  " ".intercalate (b.map fun (s, value) => if value then s else "-" ++ s)

theorem symbols_flip (b : Bindings) (s : Symbol) : (b.flip s).symbols = b.symbols := by
  rw [symbols, symbols, flip, List.map_map]
  refine List.map_congr_left fun p _ => ?_
  rw [Function.comp_apply]
  split
  · rfl
  · rfl

/-- A flip turns around the value of its symbol and leaves every other value as it is. -/
theorem lookup_flip (b : Bindings) (s t : Symbol) :
    (b.flip s).lookup t = if t = s then (b.lookup t).map not else b.lookup t := by
  induction b with
  | nil => simp [flip]
  | cons p b ih =>
    obtain ⟨u, value⟩ := p
    have flipped : flip ((u, value) :: b) s = (u, if u = s then !value else value) :: flip b s := by
      rw [flip, List.map_cons, flip]
      split
      · rfl
      · rfl
    rw [flipped, List.lookup_cons, List.lookup_cons]
    by_cases here : t = u
    · subst here
      rw [beq_self_eq_true]
      by_cases same : t = s
      · simp only [same, if_true, Option.map_some]
      · simp only [same, if_false]
    · rw [beq_eq_false_iff_ne.mpr here]
      exact ih

/-- Without a repeated symbol, the first binding of a symbol is its only one. -/
theorem lookup_eq_some_iff {b : Bindings} (distinct : b.symbols.Nodup) {s : Symbol} {value : Bool} :
    b.lookup s = some value ↔ (s, value) ∈ b := by
  induction b with
  | nil => simp
  | cons p b ih =>
    obtain ⟨t, first⟩ := p
    obtain ⟨fresh, distinct⟩ := List.nodup_cons.mp distinct
    by_cases same : s = t
    · subst same
      have unbound : (s, value) ∉ b := fun h => fresh (List.mem_map.mpr ⟨_, h, rfl⟩)
      simp [unbound, eq_comm]
    · have differ : (s == t) = false := beq_eq_false_iff_ne.mpr same
      rw [List.lookup_cons, differ]
      simp [ih distinct, same]

end Bindings

namespace Assignment

/-- The symbols and their values, in assignment order. -/
def bindings (a : Assignment) : Bindings := a.toList.map fun l => (l.symbol, l.positive)

@[simp] theorem bindings_empty : empty.bindings = [] := rfl

@[simp] theorem bindings_withCapacity (capacity : Nat) : (withCapacity capacity).bindings = [] := by
  simp [bindings]

theorem symbols_bindings (a : Assignment) : a.bindings.symbols = a.symbols := by
  rw [Bindings.symbols, bindings, List.map_map]
  rfl

theorem mem_bindings {a : Assignment} {s : Symbol} {value : Bool} :
    (s, value) ∈ a.bindings ↔ (⟨s, value⟩ : Literal) ∈ a.toList := by
  rw [bindings, List.mem_map]
  constructor
  · rintro ⟨l, hl, same⟩
    cases same
    exact hl
  · intro h
    exact ⟨_, h, rfl⟩

theorem map_literal_bindings (a : Assignment) : a.bindings.map Bindings.literal = a.toList := by
  rw [bindings, List.map_map]
  exact List.map_id _

/-! ## The index -/

/-- The index takes each bound symbol to the position of its binding, has no other entry, and no
symbol is bound twice. -/
structure Indexed (a : Assignment) : Prop where
  index : ∀ (s : Symbol) (i : Nat), a.index[s]? = some i ↔ a.bindings.symbols[i]? = some s
  distinct : a.bindings.symbols.Nodup

theorem indexed (a : Assignment) : a.Indexed where
  index s i := by
    rw [a.index_iff, symbols_bindings, symbols, List.getElem?_eq_some_iff]
    simp [toList]
  distinct := by
    rw [symbols_bindings]
    exact a.nodup_symbols

/-! ## Questions -/

/-- Every question about an assignment has the answer that a list of bindings gives. -/
structure AnswersAs (a : Assignment) (b : Bindings) : Prop where
  find? : ∀ s, a.find? s = (b.lookup s).map fun value => ⟨s, value⟩
  value? : ∀ s, a.value? s = b.lookup s
  eval? : ∀ l : Literal, a.eval? l = (b.lookup l.symbol).map fun value => value == l.positive
  holds : ∀ l : Literal, a.holds l = b.contains (l.symbol, l.positive)
  isAssigned : ∀ s, a.isAssigned s = b.symbols.contains s
  size : a.size = b.length
  isEmpty : a.isEmpty = b.isEmpty
  toList : a.toList = b.map Bindings.literal
  inOrder : ∀ symbols : List Symbol, a.inOrder symbols =
    symbols.filterMap fun s => (b.lookup s).map fun value => ⟨s, value⟩
  text : a.text = b.text

theorem lookup_bindings (a : Assignment) (s : Symbol) : a.bindings.lookup s = a.value? s := by
  refine Option.ext fun value => ?_
  rw [Bindings.lookup_eq_some_iff a.indexed.distinct, mem_bindings, Assignment.value?,
    Option.map_eq_some_iff]
  simp only [find?_eq_some_iff]
  constructor
  · intro h
    exact ⟨_, ⟨h, rfl⟩, rfl⟩
  · rintro ⟨l, ⟨hl, rfl⟩, rfl⟩
    exact hl

theorem find?_eq_lookup (a : Assignment) (s : Symbol) :
    a.find? s = (a.bindings.lookup s).map fun value => ⟨s, value⟩ := by
  rw [lookup_bindings, Assignment.value?, Option.map_map]
  cases found : a.find? s with
  | none => rfl
  | some l =>
    -- The literal that is found has the symbol that was asked for.
    obtain ⟨-, rfl⟩ := (a.find?_eq_some_iff s l).mp found
    rfl

theorem answersAs_bindings (a : Assignment) : a.AnswersAs a.bindings where
  find? := a.find?_eq_lookup
  value? s := (a.lookup_bindings s).symm
  eval? l := by rw [lookup_bindings, Assignment.eval?]
  holds l := by
    rw [Bool.eq_iff_iff, holds_iff, List.contains_iff_mem, mem_bindings]
  isAssigned s := by
    rw [Bool.eq_iff_iff, isAssigned_iff_mem_symbols, List.contains_iff_mem, symbols_bindings]
  size := by rw [size_eq_length_toList, bindings, List.length_map]
  isEmpty := by simp [Assignment.isEmpty, bindings, Assignment.toList]
  toList := a.map_literal_bindings.symm
  inOrder symbols := by
    rw [Assignment.inOrder]
    exact congrArg (symbols.filterMap ·) (funext a.find?_eq_lookup)
  text := by
    rw [Assignment.text, Bindings.text, bindings, List.map_map]
    rfl

/-! ## Changes -/

theorem bindings_extend (a : Assignment) (l : Literal) (fresh : a.isAssigned l.symbol = false) :
    (a.extend l fresh).bindings = a.bindings ++ [(l.symbol, l.positive)] := by
  simp [bindings]

/-- To assign is to append a binding, and fails when the list of bindings says so. -/
theorem assign_bindings (a : Assignment) (l : Literal) :
    a.bindings.assign l = (a.assign l).map bindings := by
  have assigned : l.symbol ∈ a.bindings.symbols ↔ a.isAssigned l.symbol = true := by
    rw [symbols_bindings, isAssigned_iff_mem_symbols]
  rw [Bindings.assign, Assignment.assign]
  split
  next bound =>
    rw [dif_pos (assigned.mp bound)]
    rfl
  next unbound =>
    rw [dif_neg (mt assigned.mpr unbound)]
    exact congrArg Except.ok (a.bindings_extend l _).symm

theorem assignAll_bindings (a : Assignment) (ls : List Literal) :
    a.bindings.assignAll ls = (a.assignAll ls).map bindings := by
  rw [Bindings.assignAll]
  induction ls generalizing a with
  | nil => rfl
  | cons l ls ih =>
    rw [List.foldlM_cons, assign_bindings, Assignment.assignAll]
    cases a.assign l with
    | ok b => exact ih b
    | error fault => rfl

/-- To flip is to turn around a binding in place. -/
theorem bindings_flip (a : Assignment) (s : Symbol) :
    (a.flip s).bindings = a.bindings.flip s := by
  rw [bindings, toList_flip, Bindings.flip, bindings, List.map_map, List.map_map]
  refine List.map_congr_left fun l _ => ?_
  simp only [Function.comp_apply]
  split
  · rfl
  · rfl

end Assignment

end CnfSearch

import CnfSearch.Proofs.Model.Bindings
import Mathlib.Logic.Function.Basic

set_option autoImplicit false

/-!
# Assignments refine lists of bindings

Assignments are made, copied and changed in numbered slots. An operation is defined over any
representation of assignments, so that one list of operations can be performed on assignments with
an index and on plain lists of bindings. Every single operation commutes with the view of an
assignment as its bindings (`Representation.Respects`), so whole runs do: they give the same
reports, meet the same fault and leave corresponding slots (`Representation.Respects.run`). With the
answers of single assignments this is `assignments_refine_bindings`.
-/

namespace CnfSearch

/-- A way to represent assignments: how they are made and changed. A flip also tells whether the
symbol has a value. -/
structure Representation (A : Type) where
  empty : A
  withCapacity : Nat → A
  ofLiterals : List Literal → Except Fault A
  assign : A → Literal → Except Fault A
  flip : A → Symbol → Bool × A

/-- Literals in assignment order with an index. -/
def Assignment.representation : Representation Assignment where
  empty := Assignment.empty
  withCapacity := Assignment.withCapacity
  ofLiterals := ofLiterals
  assign := Assignment.assign
  flip := isAssignedThenFlip

/-- Bindings in assignment order; room that is reserved makes no difference to a list. -/
def Bindings.representation : Representation Bindings where
  empty := []
  withCapacity _ := []
  ofLiterals := Bindings.assignAll []
  assign := Bindings.assign
  flip b s := (b.symbols.contains s, b.flip s)

/-- An operation on assignments in slots. -/
inductive Operation where
  | new (slot : Nat)
  | reserve (slot capacity : Nat)
  | collect (slot : Nat) (literals : List Literal)
  | assign (slot : Nat) (literal : Literal)
  | flip (slot : Nat) (symbol : Symbol)
  | copy (source target : Nat)

namespace Representation

variable {A B : Type}

/-- Perform an operation: what a flip reports, and the slots afterwards. -/
def perform (r : Representation A) (slots : Nat → A) :
    Operation → Except Fault (Option Bool × (Nat → A))
  | .new slot => .ok (none, Function.update slots slot r.empty)
  | .reserve slot capacity => .ok (none, Function.update slots slot (r.withCapacity capacity))
  | .collect slot literals =>
    (r.ofLiterals literals).map fun a => (none, Function.update slots slot a)
  | .assign slot literal =>
    (r.assign (slots slot) literal).map fun a => (none, Function.update slots slot a)
  | .flip slot symbol =>
    let (found, a) := r.flip (slots slot) symbol
    .ok (some found, Function.update slots slot a)
  | .copy source target => .ok (none, Function.update slots target (slots source))

/-- Perform operations one after another, up to the first that faults. -/
def run (r : Representation A) (slots : Nat → A) :
    List Operation → Except Fault (List (Option Bool) × (Nat → A))
  | [] => .ok ([], slots)
  | operation :: rest =>
    match r.perform slots operation with
    | .ok (report, slots) =>
      (r.run slots rest).map fun (reports, slots) => (report :: reports, slots)
    | .error fault => .error fault

/-- A view of one representation in another one with which every way to make or change an assignment
commutes. -/
structure Respects (r : Representation A) (q : Representation B) (view : A → B) : Prop where
  empty : view r.empty = q.empty
  withCapacity : ∀ n, view (r.withCapacity n) = q.withCapacity n
  ofLiterals : ∀ ls, q.ofLiterals ls = (r.ofLiterals ls).map view
  assign : ∀ a l, q.assign (view a) l = (r.assign a l).map view
  flip : ∀ a s, q.flip (view a) s = ((r.flip a s).1, view (r.flip a s).2)

section Respects

variable {r : Representation A} {q : Representation B} {view : A → B} (h : r.Respects q view)

include h

/-- An operation commutes with the view of all slots. -/
theorem Respects.perform (slots : Nat → A) (operation : Operation) :
    q.perform (view ∘ slots) operation =
      (r.perform slots operation).map fun (report, slots) => (report, view ∘ slots) := by
  cases operation with
  | new slot =>
    simp only [Representation.perform, ← h.empty, ← Function.comp_update]
    rfl
  | reserve slot capacity =>
    simp only [Representation.perform, ← h.withCapacity, ← Function.comp_update]
    rfl
  | collect slot literals =>
    simp only [Representation.perform, h.ofLiterals]
    cases r.ofLiterals literals with
    | ok a => exact congrArg (fun slots => Except.ok (none, slots)) (Function.comp_update ..).symm
    | error fault => rfl
  | assign slot literal =>
    simp only [Representation.perform, Function.comp_apply, h.assign]
    cases r.assign (slots slot) literal with
    | ok a => exact congrArg (fun slots => Except.ok (none, slots)) (Function.comp_update ..).symm
    | error fault => rfl
  | flip slot symbol =>
    simp only [Representation.perform, Function.comp_apply, h.flip, ← Function.comp_update]
    rfl
  | copy source target =>
    simp only [Representation.perform, Function.comp_apply, ← Function.comp_update]
    rfl

/-- A run commutes with the view of all slots. -/
theorem Respects.run (slots : Nat → A) (operations : List Operation) :
    q.run (view ∘ slots) operations =
      (r.run slots operations).map fun (reports, slots) => (reports, view ∘ slots) := by
  -- The induction is on the operations; the slots are those that the first one leaves.
  induction operations generalizing slots with
  | nil => rfl
  | cons operation rest ih =>
    rw [Representation.run, Representation.run, h.perform]
    cases r.perform slots operation with
    | error fault => rfl
    | ok result =>
      obtain ⟨report, left⟩ := result
      simp only [Except.map, ih]
      cases r.run left rest with
      | ok result => rfl
      | error fault => rfl

end Respects

end Representation

/-- The bindings of an assignment change as a list of bindings does. -/
theorem Assignment.respects_bindings :
    Assignment.representation.Respects Bindings.representation Assignment.bindings where
  empty := bindings_empty
  withCapacity := bindings_withCapacity
  ofLiterals := Assignment.empty.assignAll_bindings
  assign := assign_bindings
  flip a s := by
    simp only [representation, Bindings.representation, isAssignedThenFlip_eq, bindings_flip,
      a.answersAs_bindings.isAssigned]

/-- An assignment with its index refines the ordered list of its bindings. Whatever operations are
performed on assignments in slots, the same ones on lists of bindings give the same reports and
lists, or the same fault; the index takes exactly the listed symbols to their positions, none of
which is repeated; and every question has the answer of the list. A symbol that has a value, and no
other one, cannot be assigned, and a flip changes neither the order nor any other symbol. -/
theorem assignments_refine_bindings :
    (∀ (slots : Nat → Assignment) (operations : List Operation),
      Bindings.representation.run (fun i => (slots i).bindings) operations =
        (Assignment.representation.run slots operations).map fun (reports, left) =>
          (reports, fun i => (left i).bindings)) ∧
    ∀ a : Assignment, a.Indexed ∧ a.AnswersAs a.bindings ∧
      (∀ l fault, a.assign l = .error fault ↔
        l.symbol ∈ a.bindings.symbols ∧ fault = .reassigned l.symbol) ∧
      ∀ s, (a.flip s).bindings.symbols = a.bindings.symbols ∧
        (a.flip s).value? s = (a.value? s).map not ∧
        ∀ t, t ≠ s → (a.flip s).value? t = a.value? t := by
  refine ⟨fun slots operations => Assignment.respects_bindings.run slots operations, fun a =>
    ⟨a.indexed, a.answersAs_bindings, fun l fault => ?_, fun s => ⟨?_, ?_, fun t other => ?_⟩⟩⟩
  · rw [Assignment.assign_eq_error_iff, Assignment.symbols_bindings]
  · rw [Assignment.bindings_flip, Bindings.symbols_flip]
  · rw [← Assignment.lookup_bindings, Assignment.bindings_flip, Bindings.lookup_flip, if_pos rfl,
      Assignment.lookup_bindings]
  · rw [← Assignment.lookup_bindings, Assignment.bindings_flip, Bindings.lookup_flip, if_neg other,
      Assignment.lookup_bindings]

end CnfSearch

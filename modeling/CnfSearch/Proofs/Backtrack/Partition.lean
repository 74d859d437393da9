import CnfSearch.Backtrack.Branch
import CnfSearch.Proofs.Model.Symbols
import Mathlib.Data.List.Duplicate

set_option autoImplicit false

/-!
# Assigned and open symbols of a branch

On every branch of a search each declared symbol is either assigned or open (`Branch.Splits`), and
following a literal of an open symbol leaves a branch of the same kind (`Splits.of_follow`). Only a
repeated symbol can be both assigned and open (`Splits.duplicate`). So over distinct symbols
following such a literal never meets an assigned symbol (`Splits.exists_follow`), nor does giving
all open symbols a value (`Splits.exists_complete`).
-/

namespace CnfSearch.Backtrack.Branch

/-- Each symbol of a list is either assigned or open, and the open ones keep the order of the
list. -/
structure Splits (b : Branch) (symbols : List Symbol) : Prop where
  partition : (b.model.symbols ++ b.remaining).Perm symbols
  inOrder : b.remaining.Sublist symbols

/-- Before the first step all symbols are open. -/
theorem splits_start (symbols : List Symbol) : (Branch.mk symbols .empty).Splits symbols :=
  ⟨List.Perm.refl symbols, List.Sublist.refl symbols⟩

/-- Following a literal closes its symbol and appends it to the model. -/
theorem of_follow_eq_ok {b d : Branch} {l : Literal} (h : b.follow l = .ok d) :
    d.remaining = b.remaining.erase l.symbol ∧ d.model.toList = b.model.toList ++ [l] := by
  obtain ⟨hassign, hremaining⟩ := follow_eq_ok_iff.mp h
  exact ⟨hremaining, Assignment.toList_assign hassign⟩

/-- A literal of a symbol without value can be followed. -/
theorem exists_follow_of_fresh {b : Branch} {l : Literal} (fresh : l.symbol ∉ b.model.symbols) :
    ∃ d, b.follow l = .ok d := by
  obtain ⟨model, hassign, -⟩ := Assignment.exists_assign fresh
  exact ⟨⟨b.remaining.erase l.symbol, model⟩, by simp only [follow, hassign]⟩

/-- A literal whose symbol has a value is refused. -/
theorem follow_of_assigned {b : Branch} {l : Literal} (assigned : l.symbol ∈ b.model.symbols) :
    b.follow l = .error (.reassigned l.symbol) := by
  simp only [follow, Assignment.assign_eq_error_iff.mpr ⟨assigned, rfl⟩]

/-- What could be followed had no value before. -/
theorem notMem_symbols_of_follow {b d : Branch} {l : Literal} (h : b.follow l = .ok d) :
    l.symbol ∉ b.model.symbols := by
  intro assigned
  rw [follow_of_assigned assigned] at h
  cases h

/-- A declared symbol without value is open. -/
theorem Splits.mem_remaining {b : Branch} {symbols : List Symbol} (h : b.Splits symbols)
    {s : Symbol} (declared : s ∈ symbols) (fresh : s ∉ b.model.symbols) : s ∈ b.remaining := by
  have hmem := h.partition.mem_iff.mpr declared
  exact (List.mem_append.mp hmem).resolve_left fresh

theorem Splits.mem_symbols_of_closed {b : Branch} {symbols : List Symbol} (h : b.Splits symbols)
    (closed : b.remaining = []) {s : Symbol} (declared : s ∈ symbols) : s ∈ b.model.symbols := by
  have hmem := h.partition.mem_iff.mpr declared
  simpa [closed] using hmem

theorem Splits.of_follow {b d : Branch} {symbols : List Symbol} {l : Literal}
    (h : b.Splits symbols) (hopen : l.symbol ∈ b.remaining) (hd : b.follow l = .ok d) :
    d.Splits symbols := by
  obtain ⟨hremaining, hmodel⟩ := of_follow_eq_ok hd
  constructor
  · -- The symbol of the literal moves from the open symbols to the end of the assigned ones.
    have moved : (b.model.symbols ++ b.remaining).Perm
        (b.model.symbols ++ l.symbol :: b.remaining.erase l.symbol) :=
      (List.perm_cons_erase hopen).append_left _
    have hsymbols : d.model.symbols = b.model.symbols ++ [l.symbol] := by
      simp [Assignment.symbols, hmodel]
    rw [hsymbols, hremaining, List.append_assoc]
    exact moved.symm.trans h.partition
  · rw [hremaining]
    exact List.erase_sublist.trans h.inOrder

section Repetition

variable {b : Branch} {symbols : List Symbol}

/-- A symbol that is both assigned and open is repeated in the list. -/
theorem Splits.duplicate (h : b.Splits symbols) {s : Symbol} (assigned : s ∈ b.model.symbols)
    (hopen : s ∈ b.remaining) : List.Duplicate s symbols := by
  rw [List.duplicate_iff_two_le_count, ← h.partition.count_eq, List.count_append]
  have once := List.count_pos_iff.mpr assigned
  have again := List.count_pos_iff.mpr hopen
  omega

/-- The open symbols can all be given the value true, in their order, unless a repeated one of them
has a value already. -/
theorem Splits.complete_cases (h : b.Splits symbols) :
    (∃ model, b.complete = .ok model ∧
        model.toList = b.model.toList ++ b.remaining.map fun s => ⟨s, true⟩) ∨
      ∃ s, List.Duplicate s symbols ∧ b.complete = .error (.reassigned s) := by
  refine (b.model.assignAll_cases (b.remaining.map fun s => ⟨s, true⟩)).imp_right ?_
  rintro ⟨before, l, after, split, -, again, refused⟩
  refine ⟨l.symbol, ?_, refused⟩
  have hremaining :
      b.remaining = before.map Literal.symbol ++ l.symbol :: after.map Literal.symbol := by
    have := congrArg (List.map Literal.symbol) split
    simpa [Function.comp_def] using this
  -- The symbol has its place among the open ones and another one before it.
  rw [List.duplicate_iff_two_le_count, ← h.partition.count_eq, hremaining, ← List.append_assoc,
    List.count_append, List.count_cons_self]
  have once := List.count_pos_iff.mpr again
  omega

end Repetition

section Distinct

variable {b : Branch} {symbols : List Symbol}

theorem Splits.nodup (h : b.Splits symbols) (distinct : symbols.Nodup) :
    (b.model.symbols ++ b.remaining).Nodup :=
  h.partition.nodup_iff.mpr distinct

/-- The open symbols are those without value, in the order of the list. -/
theorem Splits.remaining_eq_filter (h : b.Splits symbols) (distinct : symbols.Nodup) :
    b.remaining = symbols.filter fun s => s ∉ b.model.symbols := by
  have hopen : b.remaining.filter (fun s => s ∉ b.model.symbols) = b.remaining := by
    rw [List.filter_eq_self]
    intro s hs
    have fresh : s ∉ b.model.symbols := fun assigned =>
      (List.nodup_append.mp (h.nodup distinct)).2.2 s assigned s hs rfl
    simpa using fresh
  have hassigned : b.model.symbols.filter (fun s => s ∉ b.model.symbols) = [] := by simp
  -- The open symbols are a part of the filtered list and as many as it has.
  have part := h.inOrder.filter fun s => s ∉ b.model.symbols
  have same := (h.partition.filter fun s => s ∉ b.model.symbols).length_eq
  rw [List.filter_append, hassigned, hopen, List.nil_append] at same
  rw [hopen] at part
  exact part.eq_of_length same

/-- An open symbol has no value yet. -/
theorem Splits.notMem_symbols (h : b.Splits symbols) (distinct : symbols.Nodup) {s : Symbol}
    (hopen : s ∈ b.remaining) : s ∉ b.model.symbols :=
  fun assigned => (h.duplicate assigned hopen).not_nodup distinct

/-- A literal of an open symbol can be followed. -/
theorem Splits.exists_follow (h : b.Splits symbols) (distinct : symbols.Nodup) {l : Literal}
    (hopen : l.symbol ∈ b.remaining) : ∃ d, b.follow l = .ok d :=
  exists_follow_of_fresh (h.notMem_symbols distinct hopen)

/-- The open symbols can all be given the value true, in their order. -/
theorem Splits.exists_complete (h : b.Splits symbols) (distinct : symbols.Nodup) :
    ∃ model, b.complete = .ok model ∧
      model.toList = b.model.toList ++ b.remaining.map fun s => ⟨s, true⟩ := by
  rcases h.complete_cases with completed | ⟨s, duplicate, -⟩
  · exact completed
  · exact absurd distinct duplicate.not_nodup

end Distinct

end CnfSearch.Backtrack.Branch

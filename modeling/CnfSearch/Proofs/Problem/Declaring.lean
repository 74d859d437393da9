import CnfSearch.Proofs.Solver.Refusal

set_option autoImplicit false

/-!
# Declaring problems

A declaration is refused because of the symbol whose second occurrence comes first
(`declare_eq_repeated_iff`), and only if no symbol is repeated because of the first undeclared one
(`declare_eq_undeclared_iff`). Whatever is accepted is a problem, and a problem keeps both faults of
a search and the refusal of a solver out of reach: `problems_are_solvable`.
-/

namespace CnfSearch

/-- The symbol whose second occurrence comes first: what stands before that occurrence is distinct
and has the symbol among it. -/
def FirstRepeated (symbols : List Symbol) (s : Symbol) : Prop :=
  ∃ before after, symbols = before ++ s :: after ∧ before.Nodup ∧ s ∈ before

/-- What is found was seen, or stands among the distinct and unseen symbols before it. -/
theorem exists_split_of_firstRepeated? {seen : Std.HashSet Symbol} {symbols : List Symbol}
    {s : Symbol} (found : firstRepeated? seen symbols = some s) :
    ∃ before after, symbols = before ++ s :: after ∧ before.Nodup ∧
      (∀ t ∈ before, seen.contains t = false) ∧ (seen.contains s = true ∨ s ∈ before) := by
  induction symbols generalizing seen with
  | nil => cases found
  | cons t rest ih =>
    rw [firstRepeated?] at found
    split at found
    next hseen =>
      cases found
      exact ⟨[], rest, rfl, List.nodup_nil, by simp, Or.inl hseen⟩
    next hunseen =>
      rw [Bool.not_eq_true] at hunseen
      obtain ⟨before, after, rfl, distinct, unseen, again⟩ := ih found
      simp only [Std.HashSet.contains_insert, Bool.or_eq_false_iff, beq_eq_false_iff_ne] at unseen
      simp only [Std.HashSet.contains_insert, Bool.or_eq_true, beq_iff_eq] at again
      -- The first symbol joins those before the one that is found.
      refine ⟨t :: before, after, rfl, ?_, ?_, ?_⟩
      · exact List.nodup_cons.mpr ⟨fun ht => (unseen t ht).1 rfl, distinct⟩
      · exact List.forall_mem_cons.mpr ⟨hunseen, fun u hu => (unseen u hu).2⟩
      · rcases again with (rfl | hseen) | hbefore
        · exact Or.inr List.mem_cons_self
        · exact Or.inl hseen
        · exact Or.inr (List.mem_cons_of_mem t hbefore)

/-- Distinct and unseen symbols are passed over, up to one that was seen or is one of them. -/
theorem firstRepeated?_append_cons {seen : Std.HashSet Symbol} {before after : List Symbol}
    {s : Symbol} (distinct : before.Nodup) (unseen : ∀ t ∈ before, seen.contains t = false)
    (again : seen.contains s = true ∨ s ∈ before) :
    firstRepeated? seen (before ++ s :: after) = some s := by
  induction before generalizing seen with
  | nil =>
    have hseen : seen.contains s = true := again.resolve_right List.not_mem_nil
    rw [List.nil_append, firstRepeated?, if_pos hseen]
  | cons t before ih =>
    obtain ⟨hnew, distinct⟩ := List.nodup_cons.mp distinct
    obtain ⟨hunseen, unseen⟩ := List.forall_mem_cons.mp unseen
    rw [List.cons_append, firstRepeated?, hunseen, if_neg Bool.false_ne_true]
    apply ih distinct
    · intro u hu
      have other : t ≠ u := fun same => hnew (same ▸ hu)
      simp [other, unseen u hu]
    · rcases again with hseen | hmem
      · simp [hseen]
      · rcases List.mem_cons.mp hmem with rfl | hbefore
        · simp
        · exact Or.inr hbefore

theorem firstRepeated?_eq_some_iff {symbols : List Symbol} {s : Symbol} :
    firstRepeated? ∅ symbols = some s ↔ FirstRepeated symbols s := by
  constructor
  · intro found
    obtain ⟨before, after, split, distinct, -, again⟩ := exists_split_of_firstRepeated? found
    exact ⟨before, after, split, distinct, by simpa using again⟩
  · rintro ⟨before, after, rfl, distinct, again⟩
    exact firstRepeated?_append_cons distinct (by simp) (Or.inr again)

/-- Where symbols are repeated, one of them is the first to be. -/
theorem exists_firstRepeated {symbols : List Symbol} (repeated : ¬ symbols.Nodup) :
    ∃ s, FirstRepeated symbols s := by
  cases found : firstRepeated? ∅ symbols with
  | none => exact absurd (firstRepeated?_eq_none_iff.mp found).1 repeated
  | some s => exact ⟨s, firstRepeated?_eq_some_iff.mp found⟩

namespace Problem

variable {cnf : Cnf} {symbols : List Symbol} {s : Symbol}

/-- A repeated symbol is named whether or not another one is undeclared. -/
theorem declare_eq_repeated_iff :
    declare cnf symbols = .error (.repeated s) ↔ FirstRepeated symbols s := by
  rw [← firstRepeated?_eq_some_iff, declare]
  split
  next t found => simp [found]
  next unfound =>
    split
    next => simp [unfound]
    next => simp [unfound]

/-- An undeclared symbol is named only if none is repeated. -/
theorem declare_eq_undeclared_iff :
    declare cnf symbols = .error (.undeclared s) ↔
      symbols.Nodup ∧ Cnf.FirstUndeclared cnf symbols s := by
  by_cases distinct : symbols.Nodup
  · rw [declare_eq_error_iff distinct]
    constructor
    · rintro ⟨before, l, after, split, declared, undeclared, named⟩
      cases named
      exact ⟨distinct, before, l, after, split, declared, undeclared, rfl⟩
    · rintro ⟨-, before, l, after, split, declared, undeclared, rfl⟩
      exact ⟨before, l, after, split, declared, undeclared, rfl⟩
  · refine iff_of_false (fun refused => ?_) (fun h => distinct h.1)
    -- Without distinct symbols the declaration names a repeated one.
    obtain ⟨t, first⟩ := exists_firstRepeated distinct
    rw [declare_eq_repeated_iff.mpr first] at refused
    cases refused

end Problem

/-- Clauses and symbols make a problem exactly if the symbols are distinct and name every symbol of
the clauses. Otherwise the symbol whose second occurrence comes first is named, and if there is none
the first undeclared one. So every problem, wherever it comes from, has distinct symbols and
declared clauses, and no solver, whatever it did before and whatever it draws, meets a fault or an
undeclared symbol in it. -/
theorem problems_are_solvable {G : Type} [DrawSource G] :
    (∀ (cnf : Cnf) (symbols : List Symbol),
      ((∃ p, Problem.declare cnf symbols = .ok p) ↔
        symbols.Nodup ∧ ∀ c ∈ cnf, ∀ l ∈ c.literals, l.symbol ∈ symbols) ∧
      (∀ p, Problem.declare cnf symbols = .ok p → p.clauses = cnf ∧ p.symbols = symbols) ∧
      (∀ s, Problem.declare cnf symbols = .error (.repeated s) ↔ FirstRepeated symbols s) ∧
      ∀ s, Problem.declare cnf symbols = .error (.undeclared s) ↔
        symbols.Nodup ∧ Cnf.FirstUndeclared cnf symbols s) ∧
    ∀ p : Problem,
      p.symbols.Nodup ∧ (∀ c ∈ p.clauses, ∀ l ∈ c.literals, l.symbol ∈ p.symbols) ∧
      ∀ solver : Solver G, ∃ answer after, p.solve solver = .ok (answer, after) ∧
        ∀ s, answer ≠ .error (.undeclared s) := by
  refine ⟨fun cnf symbols => ⟨?_, ?_, ?_, ?_⟩, fun p => ⟨p.distinct, p.declared, ?_⟩⟩
  · exact Problem.exists_declare_iff
  · exact fun p hp => Problem.declare_eq_ok_iff.mp hp
  · exact fun s => Problem.declare_eq_repeated_iff
  · exact fun s => Problem.declare_eq_undeclared_iff
  · exact fun solver => solver.exists_solve p.distinct p.declared

end CnfSearch

import CnfSearch.Backtrack.Branch
import CnfSearch.Proofs.Model.Meaning

set_option autoImplicit false

/-!
# The literals of forced moves

A pure literal is one whose opposite is mentioned nowhere (`spec_of_firstPure?`); a unit literal
makes up a clause and is not held (`spec_of_firstUnit?`), so that without a falsified clause its
symbol has no value yet (`Branch.Undecided.unit_fresh`).
-/

namespace CnfSearch.Backtrack

/-- A literal is counted in no clause exactly if none mentions it. -/
theorem count_ofCnf_eq_zero_iff {cnf : Cnf} {l : Literal} :
    (Occurrences.ofCnf cnf).count l = 0 ↔ l ∉ Cnf.literals cnf := by
  rw [Occurrences.count_ofCnf, List.countP_eq_zero, Cnf.mem_literals]
  simp [Clause.contains]

/-- A literal is collected exactly if it is mentioned and its opposite is not. -/
theorem mem_pureLiterals_iff {cnf : Cnf} {l : Literal} :
    l ∈ pureLiterals cnf ↔ l ∈ Cnf.literals cnf ∧ l.opposite ∉ Cnf.literals cnf := by
  simp [pureLiterals, List.mem_eraseDups, count_ofCnf_eq_zero_iff]

/-- The pure literal that is followed is mentioned, unopposed, and its symbol is open. -/
theorem spec_of_firstPure? {f : Formula} {remaining : List Symbol} {l : Literal}
    (h : firstPure? f.pures remaining = some l) :
    l ∈ Cnf.literals f.clauses ∧ l.opposite ∉ Cnf.literals f.clauses ∧ l.symbol ∈ remaining := by
  rw [firstPure?] at h
  have hmem : l ∈ f.pures := List.mem_of_find?_eq_some h
  have hopen := List.find?_some h
  rw [f.pures_eq, mem_pureLiterals_iff] at hmem
  exact ⟨hmem.1, hmem.2, by simpa using hopen⟩

/-- The unit literal that is followed is a clause of its own and not held. -/
theorem spec_of_firstUnit? {cnf : Cnf} {a : Assignment} {l : Literal}
    (h : firstUnit? cnf a = some l) : ∃ c ∈ cnf, c.literals = [l] ∧ l ∉ a.toList := by
  obtain ⟨c, hc, hopen⟩ := List.exists_of_findSome?_eq_some h
  obtain ⟨hsole, hheld⟩ := Branch.openUnit?_eq_some_iff.mp hopen
  refine ⟨c, hc, Clause.sole?_eq_some_iff.mp hsole, ?_⟩
  rw [← Assignment.holds_iff, hheld]
  exact Bool.false_ne_true

namespace Branch

/-- Without a falsified clause, the first open unit literal has a symbol without value. -/
theorem Undecided.unit_fresh {f : Formula} {b : Branch} {l : Literal} (undecided : b.Undecided f)
    (first : firstUnit? f.clauses b.model = some l) : l.symbol ∉ b.model.symbols := by
  obtain ⟨c, hc, hsole, hheld⟩ := spec_of_firstUnit? first
  intro assigned
  have opposed := (Assignment.mem_or_opposite_mem assigned).resolve_left hheld
  have falsified : Cnf.anyFalsified f.clauses b.model = true :=
    Cnf.anyFalsified_iff.mpr ⟨c, hc, by simpa [hsole] using opposed⟩
  rw [undecided.unfalsified] at falsified
  cases falsified

end Branch

end CnfSearch.Backtrack

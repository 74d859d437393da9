import CnfSearch.Proofs.Model.Meaning

set_option autoImplicit false

/-!
# Clauses under assignments that grow

A clause is judged by the literals that an assignment holds, so an assignment that keeps the
literals of another one keeps its satisfied and its falsified clauses (`Clause.isSatisfied_mono`,
`Clause.isFalsified_mono`), and no clause is both. What is found of a partial assignment therefore
holds of everything that it can become, and under an assignment of all clause symbols one of the two
judgements is the truth value of the clauses: `partial_judgements_sound`.
-/

namespace CnfSearch

section Growth

variable {a b : Assignment} {c : Clause} {cnf : Cnf}

theorem Clause.isSatisfied_mono (kept : a.toList ⊆ b.toList) (h : c.isSatisfied a = true) :
    c.isSatisfied b = true := by
  obtain ⟨l, hl, held⟩ := isSatisfied_iff.mp h
  exact isSatisfied_iff.mpr ⟨l, hl, kept held⟩

theorem Clause.isFalsified_mono (kept : a.toList ⊆ b.toList) (h : c.isFalsified a = true) :
    c.isFalsified b = true := by
  rw [isFalsified_iff] at h ⊢
  intro l hl
  exact kept (h l hl)

theorem Cnf.allSatisfied_mono (kept : a.toList ⊆ b.toList) (h : allSatisfied cnf a = true) :
    allSatisfied cnf b = true := by
  rw [allSatisfied, List.all_eq_true] at h ⊢
  intro c hc
  exact Clause.isSatisfied_mono kept (h c hc)

theorem Cnf.anyFalsified_mono (kept : a.toList ⊆ b.toList) (h : anyFalsified cnf a = true) :
    anyFalsified cnf b = true := by
  rw [anyFalsified, List.any_eq_true] at h ⊢
  obtain ⟨c, hc, falsified⟩ := h
  exact ⟨c, hc, Clause.isFalsified_mono kept falsified⟩

end Growth

section Total

variable {a : Assignment} {cnf : Cnf}
  (total : ∀ c ∈ cnf, ∀ l ∈ c.literals, l.symbol ∈ a.symbols)

include total

/-- Under an assignment of all clause symbols exactly one of the two judgements holds. -/
theorem Cnf.anyFalsified_eq_not_allSatisfied : anyFalsified cnf a = !allSatisfied cnf a := by
  rcases allSatisfied_or_anyFalsified total with satisfied | falsified
  · rw [satisfied, anyFalsified_of_allSatisfied satisfied, Bool.not_true]
  · cases satisfied : allSatisfied cnf a with
    | true => exact absurd (anyFalsified_of_allSatisfied satisfied) (by simp [falsified])
    | false => rw [falsified, Bool.not_false]

/-- Under an assignment of all clause symbols the clauses are satisfied exactly if they are true. -/
theorem Cnf.allSatisfied_eq_eval {v : Valuation} (hv : v.Extends a) :
    allSatisfied cnf a = Cnf.eval v cnf := by
  cases satisfied : allSatisfied cnf a with
  | true => exact (eval_of_allSatisfied hv satisfied).symm
  | false =>
    have falsified : anyFalsified cnf a = true := by
      rw [anyFalsified_eq_not_allSatisfied total, satisfied, Bool.not_false]
    exact (eval_of_anyFalsified hv falsified).symm

end Total

/-- The judgements of clauses under an assignment are not taken back by one that keeps its literals,
and never hold together; a first falsified clause is found exactly if one is falsified. If every
clause symbol is assigned, exactly one of them holds, and it tells the truth value of the clauses.
So an assignment that satisfies all clauses makes them true however it goes on, and one that
falsifies a clause never does. -/
theorem partial_judgements_sound (cnf : Cnf) :
    (∀ a b : Assignment, a.toList ⊆ b.toList →
      (Cnf.allSatisfied cnf a = true → Cnf.allSatisfied cnf b = true) ∧
      (Cnf.anyFalsified cnf a = true → Cnf.anyFalsified cnf b = true)) ∧
    ∀ a : Assignment,
      (Cnf.firstFalsified? cnf a).isSome = Cnf.anyFalsified cnf a ∧
      ¬ (Cnf.allSatisfied cnf a = true ∧ Cnf.anyFalsified cnf a = true) ∧
      ((∀ c ∈ cnf, ∀ l ∈ c.literals, a.isAssigned l.symbol = true) →
        Cnf.anyFalsified cnf a = !Cnf.allSatisfied cnf a ∧
        ∀ v : Valuation, v.Extends a → Cnf.allSatisfied cnf a = Cnf.eval v cnf) ∧
      (Cnf.allSatisfied cnf a = true → ∀ v : Valuation, v.Extends a → Cnf.eval v cnf = true) ∧
      (Cnf.anyFalsified cnf a = true → ∀ v : Valuation, v.Extends a → Cnf.eval v cnf = false) := by
  refine ⟨fun a b kept => ⟨?_, ?_⟩, fun a => ⟨?_, ?_, ?_, ?_, ?_⟩⟩
  · exact Cnf.allSatisfied_mono kept
  · exact Cnf.anyFalsified_mono kept
  · exact Cnf.firstFalsified?_isSome cnf a
  · rintro ⟨satisfied, falsified⟩
    rw [Cnf.anyFalsified_of_allSatisfied satisfied] at falsified
    cases falsified
  · intro assigned
    have total : ∀ c ∈ cnf, ∀ l ∈ c.literals, l.symbol ∈ a.symbols :=
      fun c hc l hl => Assignment.isAssigned_iff_mem_symbols.mp (assigned c hc l hl)
    refine ⟨Cnf.anyFalsified_eq_not_allSatisfied total, fun v hv => ?_⟩
    exact Cnf.allSatisfied_eq_eval total hv
  · exact fun satisfied v hv => Cnf.eval_of_allSatisfied hv satisfied
  · exact fun falsified v hv => Cnf.eval_of_anyFalsified hv falsified

/-- Two clauses that share a literal and differ in the other one. -/
def sharedLiteral : Cnf :=
  [⟨[⟨"x", true⟩, ⟨"y", true⟩], List.cons_ne_nil _ _⟩,
    ⟨[⟨"x", true⟩, ⟨"y", false⟩], List.cons_ne_nil _ _⟩]

/-- The shared literal satisfies both clauses before the other symbol has a value, and its opposite
falsifies one of them whatever that value is. -/
theorem partial_judgements_sound_sharedLiteral :
    ∃ a b c : Assignment, a.toList = [⟨"x", true⟩] ∧ b.toList = [⟨"x", true⟩, ⟨"y", false⟩] ∧
      c.toList = [⟨"y", true⟩, ⟨"x", false⟩] ∧
      Cnf.allSatisfied sharedLiteral a = true ∧ Cnf.allSatisfied sharedLiteral b = true ∧
      Cnf.anyFalsified sharedLiteral b = false ∧
      (∀ v : Valuation, v.Extends a → Cnf.eval v sharedLiteral = true) ∧
      Cnf.allSatisfied sharedLiteral c = false ∧ Cnf.anyFalsified sharedLiteral c = true := by
  obtain ⟨a, -, ha⟩ := Assignment.exists_ofLiterals [⟨"x", true⟩] (by decide)
  obtain ⟨b, -, hb⟩ := Assignment.exists_ofLiterals [⟨"x", true⟩, ⟨"y", false⟩] (by decide)
  obtain ⟨c, -, hc⟩ := Assignment.exists_ofLiterals [⟨"y", true⟩, ⟨"x", false⟩] (by decide)
  obtain ⟨grows, judges⟩ := partial_judgements_sound sharedLiteral
  have satisfied : Cnf.allSatisfied sharedLiteral a = true := by
    rw [Cnf.allSatisfied_iff, ha]
    decide
  have falsified : Cnf.anyFalsified sharedLiteral c = true := by
    rw [Cnf.anyFalsified_iff, hc]
    decide
  have kept : a.toList ⊆ b.toList := by
    rw [ha, hb]
    decide
  have later : Cnf.allSatisfied sharedLiteral b = true := (grows a b kept).1 satisfied
  refine ⟨a, b, c, ha, hb, hc, satisfied, later, ?_, (judges a).2.2.2.1 satisfied, ?_, falsified⟩
  · rw [← Bool.not_eq_true]
    exact fun both => (judges b).2.1 ⟨later, both⟩
  · rw [← Bool.not_eq_true]
    exact fun both => (judges c).2.1 ⟨both, falsified⟩

/-- A clause that is true under every valuation need not be satisfied by an assignment. -/
example :
    Cnf.allSatisfied [⟨[⟨"x", true⟩, ⟨"x", false⟩], List.cons_ne_nil _ _⟩] .empty = false := by
  cbv

end CnfSearch

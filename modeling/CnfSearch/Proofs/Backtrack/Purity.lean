import CnfSearch.Backtrack.Purity
import CnfSearch.Proofs.Backtrack.Moves
import Mathlib.Data.List.Find

set_option autoImplicit false

/-!
# The first pure literal

Reading the clauses once, with a table of signs and a list of candidates, finds the first literal
whose symbol is open and whose opposite is mentioned nowhere (`readPure?_eq_firstUnopposed?`). What
a reading has noted after some literals is `Sightings.Notes`; each further literal keeps it
(`Sightings.Notes.note`). The search finds pure literals once for all branches and looks among them
for one with an open symbol, which is the same literal (`firstPure?_eq_firstUnopposed?`). To make it
true loses no model: `pure_literal_is_first_and_safe`.
-/

namespace CnfSearch

namespace Backtrack

/-! ## Signs -/

/-- The signs of a symbol in a list of literals. -/
def signsIn (ls : List Literal) (s : Symbol) : Option Purity :=
  match decide (⟨s, true⟩ ∈ ls), decide (⟨s, false⟩ ∈ ls) with
  | true, true => some .mixed
  | true, false => some (.pure true)
  | false, true => some (.pure false)
  | false, false => none

theorem isSome_signsIn_iff {ls : List Literal} {s : Symbol} :
    (signsIn ls s).isSome = true ↔ ∃ l ∈ ls, l.symbol = s := by
  have occurs : (∃ l ∈ ls, l.symbol = s) ↔ ⟨s, true⟩ ∈ ls ∨ ⟨s, false⟩ ∈ ls := by
    constructor
    · rintro ⟨⟨t, positive⟩, hl, rfl⟩
      cases positive with
      | true => exact .inl hl
      | false => exact .inr hl
    · rintro (h | h)
      · exact ⟨_, h, rfl⟩
      · exact ⟨_, h, rfl⟩
  rw [occurs, signsIn]
  split <;> simp_all

/-- A literal is mixed in a list that mentions it exactly if its opposite is mentioned as well. -/
theorem signsIn_eq_mixed_iff {ls : List Literal} {l : Literal} (hl : l ∈ ls) :
    signsIn ls l.symbol = some .mixed ↔ l.opposite ∈ ls := by
  obtain ⟨s, positive⟩ := l
  cases positive with
  | true => by_cases h : (⟨s, false⟩ : Literal) ∈ ls <;> simp [signsIn, Literal.opposite, hl, h]
  | false => by_cases h : (⟨s, true⟩ : Literal) ∈ ls <;> simp [signsIn, Literal.opposite, hl, h]

/-- A further literal adds its sign to those of its symbol. -/
theorem signsIn_append_self (ls : List Literal) (l : Literal) :
    signsIn (ls ++ [l]) l.symbol =
      some (((signsIn ls l.symbol).map fun p => p.meet l.positive).getD (.pure l.positive)) := by
  obtain ⟨s, positive⟩ := l
  by_cases ht : (⟨s, true⟩ : Literal) ∈ ls <;> by_cases hf : (⟨s, false⟩ : Literal) ∈ ls <;>
    cases positive <;> simp [signsIn, Purity.meet, ht, hf]

theorem signsIn_append_of_ne {ls : List Literal} {l : Literal} {s : Symbol} (h : l.symbol ≠ s) :
    signsIn (ls ++ [l]) s = signsIn ls s := by
  have other : ∀ positive, (⟨s, positive⟩ : Literal) ≠ l := by
    rintro positive rfl
    exact h rfl
  simp [signsIn, other]

/-! ## A reading of the clauses -/

namespace Sightings

/-- What is noted after some literals: the signs of every open symbol, and candidates among which
one is found by its symbol just as among all literals of open symbols. -/
structure Notes (remaining : List Symbol) (seen : Sightings) (ls : List Literal) : Prop where
  signs : ∀ s ∈ remaining, seen.signs[s]? = signsIn ls s
  candidates : ∀ wanted : Symbol → Bool,
    seen.candidates.find? (fun l => wanted l.symbol) =
      ls.find? fun l => remaining.contains l.symbol && wanted l.symbol

theorem notes_empty (remaining : List Symbol) : Notes remaining empty [] where
  signs := by simp [empty, signsIn]
  candidates := by simp [empty]

section Note

variable {remaining : List Symbol} {seen : Sightings} {ls : List Literal}

/-- The literal of a symbol that has occurred before changes nothing about what is found first. -/
theorem find?_append_of_occurred {l : Literal} (hopen : l.symbol ∈ remaining)
    (occurred : ∃ k ∈ ls, k.symbol = l.symbol) (wanted : Symbol → Bool) :
    (ls ++ [l]).find? (fun l => remaining.contains l.symbol && wanted l.symbol) =
      ls.find? fun l => remaining.contains l.symbol && wanted l.symbol := by
  rw [List.find?_append]
  cases hwanted : wanted l.symbol with
  | true =>
    obtain ⟨k, hk, same⟩ := occurred
    have found : (ls.find? fun l => remaining.contains l.symbol && wanted l.symbol).isSome := by
      rw [List.find?_isSome]
      exact ⟨k, hk, by simp [same, hopen, hwanted]⟩
    exact Option.or_of_isSome found
  | false => simp [hwanted]

/-- A further literal is noted. -/
theorem Notes.note (h : Notes remaining seen ls) (l : Literal) :
    Notes remaining (seen.note (.ofList remaining) l) (ls ++ [l]) := by
  rw [Sightings.note, Std.HashSet.contains_ofList]
  split
  next hopen =>
    rw [List.contains_iff_mem] at hopen
    have signs : ∀ p, some p = signsIn (ls ++ [l]) l.symbol →
        ∀ s ∈ remaining, (seen.signs.insert l.symbol p)[s]? = signsIn (ls ++ [l]) s := by
      intro p hp s hs
      rw [Std.HashMap.getElem?_insert]
      split
      next same =>
        rw [beq_iff_eq] at same
        rw [hp, same]
      next other =>
        rw [beq_iff_eq] at other
        rw [h.signs s hs, signsIn_append_of_ne other]
    have next := signsIn_append_self ls l
    rw [← h.signs l.symbol hopen] at next
    cases hsigns : seen.signs[l.symbol]? with
    | none =>
      rw [hsigns] at next
      refine ⟨signs _ next.symm, fun wanted => ?_⟩
      rw [Array.find?_push, h.candidates, List.find?_append]
      simp [hopen]
    | some p =>
      rw [hsigns] at next
      refine ⟨signs _ next.symm, fun wanted => ?_⟩
      have occurred : ∃ k ∈ ls, k.symbol = l.symbol := by
        rw [← isSome_signsIn_iff, ← h.signs l.symbol hopen, hsigns]
        rfl
      rw [find?_append_of_occurred hopen occurred, h.candidates]
  next hclosed =>
    rw [List.contains_iff_mem] at hclosed
    refine ⟨fun s hs => ?_, fun wanted => ?_⟩
    · have other : l.symbol ≠ s := fun same => hclosed (same ▸ hs)
      rw [h.signs s hs, signsIn_append_of_ne other]
    · rw [h.candidates, List.find?_append]
      simp [hclosed]

/-- A reading notes all its literals. -/
theorem Notes.foldl (h : Notes remaining seen ls) (more : List Literal) :
    Notes remaining (more.foldl (Sightings.note (.ofList remaining)) seen) (ls ++ more) := by
  -- The induction reads literal by literal, and each of them moves to those that are noted.
  induction more generalizing seen ls with
  | nil => simpa using h
  | cons l more ih => simpa using ih (h.note l)

end Note

end Sightings

/-! ## The first unopposed literal -/

/-- The first literal of the clauses whose symbol is open and whose opposite is nowhere. -/
def firstUnopposed? (cnf : Cnf) (remaining : List Symbol) : Option Literal :=
  (Cnf.literals cnf).find? fun l =>
    remaining.contains l.symbol && !(Cnf.literals cnf).contains l.opposite

/-- One reading finds the first unopposed literal of an open symbol. -/
theorem readPure?_eq_firstUnopposed? (cnf : Cnf) (remaining : List Symbol) :
    readPure? cnf remaining = firstUnopposed? cnf remaining := by
  have noted := (Sightings.notes_empty remaining).foldl (Cnf.literals cnf)
  rw [List.nil_append] at noted
  rw [readPure?, Sightings.firstPure?,
    noted.candidates fun s => _ != some Purity.mixed, firstUnopposed?]
  refine List.find?_congr fun l hl => ?_
  cases hopen : remaining.contains l.symbol with
  | false => rfl
  | true =>
    rw [List.contains_iff_mem] at hopen
    rw [noted.signs l.symbol hopen, Bool.true_and, Bool.true_and, bne, Bool.eq_iff_iff,
      Bool.not_eq_true', Bool.not_eq_true', ← Bool.not_eq_true, ← Bool.not_eq_true, beq_iff_eq,
      signsIn_eq_mixed_iff hl, List.contains_iff_mem]

/-- A list without its duplicates has the same first element that passes a test. -/
theorem find?_eraseDups {α : Type} [DecidableEq α] (p : α → Bool) (xs : List α) :
    xs.eraseDups.find? p = xs.find? p := by
  match xs with
  | [] => rfl
  | x :: xs =>
    rw [List.eraseDups_cons, List.find?_cons, List.find?_cons, find?_eraseDups p,
      List.find?_filter]
    cases hx : p x with
    | true => rfl
    | false =>
      -- What equals the first element fails the test as it does.
      refine List.find?_congr fun y hy => ?_
      by_cases same : y = x
      · simp [same, hx]
      · simp [same]
termination_by xs.length
decreasing_by exact Nat.lt_succ_of_le (List.length_filter_le _ _)

/-- The search for a pure literal finds the first unopposed one of an open symbol. -/
theorem firstPure?_eq_firstUnopposed? (cnf : Cnf) (remaining : List Symbol) :
    firstPure? (pureLiterals cnf) remaining = firstUnopposed? cnf remaining := by
  rw [firstPure?, pureLiterals, find?_eraseDups, List.find?_filter, firstUnopposed?]
  refine List.find?_congr fun l _ => ?_
  simp [count_ofCnf_eq_zero_iff, Bool.and_comm]

/-- The first unopposed literal, in terms of the literals before its first occurrence. -/
theorem firstUnopposed?_eq_some_iff {cnf : Cnf} {remaining : List Symbol} {l : Literal} :
    firstUnopposed? cnf remaining = some l ↔
      ∃ before after, Cnf.literals cnf = before ++ l :: after ∧ l ∉ before ∧
        l.symbol ∈ remaining ∧ l.opposite ∉ Cnf.literals cnf ∧
        ∀ k ∈ before, k.symbol ∉ remaining ∨ k.opposite ∈ Cnf.literals cnf := by
  have passed : ∀ k : Literal,
      (!(remaining.contains k.symbol && !(Cnf.literals cnf).contains k.opposite)) = true ↔
        (k.symbol ∉ remaining ∨ k.opposite ∈ Cnf.literals cnf) := by
    intro k
    simp
  simp only [firstUnopposed?, List.find?_eq_some_iff_append, passed]
  simp only [Bool.and_eq_true, Bool.not_eq_true', ← Bool.not_eq_true, List.contains_iff_mem]
  constructor
  · rintro ⟨⟨hopen, unopposed⟩, before, after, split, earlier⟩
    refine ⟨before, after, split, fun again => ?_, hopen, unopposed, earlier⟩
    -- An occurrence further to the left would have been found.
    rcases earlier l again with closed | opposed
    · exact closed hopen
    · exact unopposed opposed
  · rintro ⟨before, after, split, -, hopen, unopposed, earlier⟩
    exact ⟨⟨hopen, unopposed⟩, before, after, split, earlier⟩

/-- There is no unopposed literal of an open symbol exactly if every open symbol that occurs does so
with both signs. -/
theorem firstUnopposed?_eq_none_iff {cnf : Cnf} {remaining : List Symbol} :
    firstUnopposed? cnf remaining = none ↔
      ∀ s ∈ remaining, (∃ l ∈ Cnf.literals cnf, l.symbol = s) →
        ⟨s, true⟩ ∈ Cnf.literals cnf ∧ ⟨s, false⟩ ∈ Cnf.literals cnf := by
  simp only [firstUnopposed?, List.find?_eq_none, Bool.and_eq_true, Bool.not_eq_true',
    ← Bool.not_eq_true, List.contains_iff_mem, not_and, not_not]
  constructor
  · rintro opposed s hs ⟨⟨t, positive⟩, hl, rfl⟩
    have other := opposed _ hl hs
    cases positive with
    | true => exact ⟨hl, other⟩
    | false => exact ⟨other, hl⟩
  · rintro both ⟨s, positive⟩ hl hs
    obtain ⟨high, low⟩ := both s hs ⟨_, hl, rfl⟩
    cases positive with
    | true => exact low
    | false => exact high

end Backtrack

/-- Among the pure literals that are found once, the search takes the literal that one reading of
the clauses finds for the open symbols. It is the literal of an open symbol whose opposite is in no
clause and such that every literal before its first occurrence has a symbol that is not open or an
opposite in the clauses. None is found exactly if every open symbol that occurs does so with both
signs. If the open symbols have no value yet, a model that extends the assignment can be changed so
that it makes the found literal true. -/
theorem pure_literal_is_first_and_safe (cnf : Cnf) (remaining : List Symbol) :
    Backtrack.firstPure? (Backtrack.Formula.ofCnf cnf).pures remaining =
      Backtrack.readPure? cnf remaining ∧
    (∀ l, Backtrack.readPure? cnf remaining = some l ↔
      ∃ before after, Cnf.literals cnf = before ++ l :: after ∧ l ∉ before ∧
        l.symbol ∈ remaining ∧ l.opposite ∉ Cnf.literals cnf ∧
        ∀ k ∈ before, k.symbol ∉ remaining ∨ k.opposite ∈ Cnf.literals cnf) ∧
    (Backtrack.readPure? cnf remaining = none ↔
      ∀ s ∈ remaining, (∃ l ∈ Cnf.literals cnf, l.symbol = s) →
        ⟨s, true⟩ ∈ Cnf.literals cnf ∧ ⟨s, false⟩ ∈ Cnf.literals cnf) ∧
    ∀ (l : Literal) (a : Assignment), Backtrack.readPure? cnf remaining = some l →
      (∀ s ∈ remaining, a.isAssigned s = false) →
        (∃ v : Valuation, v.Extends a ∧ Cnf.eval v cnf = true) →
          ∃ v : Valuation, v.Extends a ∧ l.eval v = true ∧ Cnf.eval v cnf = true := by
  rw [Backtrack.readPure?_eq_firstUnopposed?]
  refine ⟨Backtrack.firstPure?_eq_firstUnopposed? cnf remaining,
    fun l => Backtrack.firstUnopposed?_eq_some_iff, Backtrack.firstUnopposed?_eq_none_iff, ?_⟩
  rintro l a found unassigned ⟨v, hext, hv⟩
  obtain ⟨-, -, -, -, hopen, unopposed, -⟩ := Backtrack.firstUnopposed?_eq_some_iff.mp found
  have fresh : l.symbol ∉ a.symbols := by
    rw [← Assignment.isAssigned_iff_mem_symbols, unassigned l.symbol hopen]
    exact Bool.false_ne_true
  exact ⟨v.force l, hext.force fresh, Literal.eval_force_self v l,
    Cnf.eval_force_of_opposite_notMem unopposed hv⟩

/-- Two symbols of the first clause occur with the other sign in a later one. -/
def demoted : Cnf :=
  [⟨[⟨"a", true⟩, ⟨"b", true⟩], List.cons_ne_nil _ _⟩,
    ⟨[⟨"c", true⟩, ⟨"b", false⟩], List.cons_ne_nil _ _⟩,
    ⟨[⟨"a", false⟩, ⟨"c", true⟩], List.cons_ne_nil _ _⟩]

/-- The candidates of the first clause are passed over for the third symbol, and without it nothing
is found. Made true, it leaves a model behind the first symbol. -/
theorem pure_literal_is_first_and_safe_demoted :
    Backtrack.readPure? demoted ["a", "b", "c"] = some ⟨"c", true⟩ ∧
      Backtrack.readPure? demoted ["a", "b"] = none ∧
      ∃ a : Assignment, a.toList = [⟨"a", true⟩] ∧
        Backtrack.readPure? demoted ["b", "c"] = some ⟨"c", true⟩ ∧
        (∀ s ∈ ["b", "c"], a.isAssigned s = false) ∧
        (∃ v : Valuation, v.Extends a ∧ Cnf.eval v demoted = true) ∧
        ∃ v : Valuation, v.Extends a ∧ (⟨"c", true⟩ : Literal).eval v = true ∧
          Cnf.eval v demoted = true := by
  have first := (pure_literal_is_first_and_safe demoted ["a", "b", "c"]).2.1 ⟨"c", true⟩
  have nothing := (pure_literal_is_first_and_safe demoted ["a", "b"]).2.2.1
  obtain ⟨-, second, -, safe⟩ := pure_literal_is_first_and_safe demoted ["b", "c"]
  have found : Backtrack.readPure? demoted ["b", "c"] = some ⟨"c", true⟩ :=
    (second _).mpr ⟨[⟨"a", true⟩, ⟨"b", true⟩], [⟨"b", false⟩, ⟨"a", false⟩, ⟨"c", true⟩],
      by decide, by decide, by decide, by decide, by decide⟩
  obtain ⟨a, -, ha⟩ := Assignment.exists_ofLiterals [⟨"a", true⟩] (by decide)
  have unassigned : ∀ s ∈ ["b", "c"], a.isAssigned s = false := by
    intro s hs
    rw [← Bool.not_eq_true, Assignment.isAssigned_iff_mem_symbols, Assignment.symbols, ha]
    revert s
    decide
  have model : ∃ v : Valuation, v.Extends a ∧ Cnf.eval v demoted = true := by
    refine ⟨fun _ => true, ?_, by decide⟩
    simp [Valuation.Extends, ha, Literal.eval]
  refine ⟨first.mpr ⟨[⟨"a", true⟩, ⟨"b", true⟩], [⟨"b", false⟩, ⟨"a", false⟩, ⟨"c", true⟩],
    by decide, by decide, by decide, by decide, by decide⟩, nothing.mpr (by decide), a, ha, found,
    unassigned, model, safe _ a found unassigned model⟩

end CnfSearch

import CnfSearch.Problem.Basic
import CnfSearch.Proofs.Formula.Tokens

set_option autoImplicit false

/-!
# Problems over numbered variables

A declaration succeeds exactly for the clauses and symbols of a problem (`declare_eq_ok_iff`), and
of several undeclared literals it names the first (`declare_eq_error_iff`). The numbers from one to
a count are distinct symbols (`nodup_numbers`), so over numbered variables no symbol is repeated,
and only a variable beyond the count is undeclared: `exists_ofVariables_iff`,
`ofVariables_eq_error_iff`. All this presupposes that the numbers fit in a list; beyond
`symbolCapacity` there is a fault, whatever the clauses are (`ofVariables_eq_fault_iff`).
-/

namespace CnfSearch

namespace Cnf

/-- The undeclared symbol that is found is the one of the first literal without declaration. -/
theorem firstUndeclared?_eq_some_iff {cnf : Cnf} {symbols : List Symbol} {s : Symbol} :
    firstUndeclared? cnf symbols = some s ↔ ∃ before l after,
      literals cnf = before ++ l :: after ∧ (∀ k ∈ before, k.symbol ∈ symbols) ∧
        l.symbol ∉ symbols ∧ l.symbol = s := by
  simp only [firstUndeclared?, Option.map_eq_some_iff, List.find?_eq_some_iff_append,
    Std.HashSet.contains_ofList, Bool.not_eq_true', Bool.not_not, List.contains_iff_mem,
    ← Bool.not_eq_true]
  constructor
  · rintro ⟨l, ⟨undeclared, before, after, split, declared⟩, symbol⟩
    exact ⟨before, l, after, split, declared, undeclared, symbol⟩
  · rintro ⟨before, l, after, split, declared, undeclared, symbol⟩
    exact ⟨l, ⟨undeclared, before, after, split, declared⟩, symbol⟩

/-- A variable occurs in the clauses. -/
def Uses (cnf : Cnf) (v : Nat) : Prop := ∃ l ∈ literals cnf, l.symbol = v.repr

/-- All variables of the clauses are numbers that a text can name. -/
def Numbered (cnf : Cnf) : Prop := ∀ l ∈ literals cnf, ∃ v, l.HasVariable v

end Cnf

namespace Problem

/-- Clauses and symbols are accepted if they are those of a problem. -/
theorem declare_eq_ok_iff {cnf : Cnf} {symbols : List Symbol} {p : Problem} :
    declare cnf symbols = .ok p ↔ p.clauses = cnf ∧ p.symbols = symbols := by
  constructor
  · exact of_declare_eq_ok
  · rintro ⟨rfl, rfl⟩
    have hrepeated : firstRepeated? ∅ p.symbols = none :=
      firstRepeated?_eq_none_iff.mpr ⟨p.distinct, by simp⟩
    have hundeclared := Cnf.firstUndeclared?_eq_none_iff.mpr p.declared
    rw [declare]
    split
    next s h => rw [hrepeated] at h; cases h
    next =>
      split
      next s h => rw [hundeclared] at h; cases h
      next => rfl

/-- Clauses and symbols make a problem exactly if the symbols are distinct and name every symbol of
the clauses. -/
theorem exists_declare_iff {cnf : Cnf} {symbols : List Symbol} :
    (∃ p, declare cnf symbols = .ok p) ↔
      symbols.Nodup ∧ ∀ c ∈ cnf, ∀ l ∈ c.literals, l.symbol ∈ symbols := by
  constructor
  · rintro ⟨p, hp⟩
    obtain ⟨rfl, rfl⟩ := declare_eq_ok_iff.mp hp
    exact ⟨p.distinct, p.declared⟩
  · rintro ⟨distinct, declared⟩
    exact ⟨⟨cnf, symbols, distinct, declared⟩, declare_eq_ok_iff.mpr ⟨rfl, rfl⟩⟩

/-- Clauses over distinct symbols are refused because of the first literal that is not declared. -/
theorem declare_eq_error_iff {cnf : Cnf} {symbols : List Symbol} (distinct : symbols.Nodup)
    {e : DeclarationError} :
    declare cnf symbols = .error e ↔ ∃ before l after,
      Cnf.literals cnf = before ++ l :: after ∧ (∀ k ∈ before, k.symbol ∈ symbols) ∧
        l.symbol ∉ symbols ∧ e = .undeclared l.symbol := by
  have hrepeated : firstRepeated? ∅ symbols = none :=
    firstRepeated?_eq_none_iff.mpr ⟨distinct, by simp⟩
  have undeclared : declare cnf symbols = .error e ↔
      ∃ s, Cnf.firstUndeclared? cnf symbols = some s ∧ e = .undeclared s := by
    rw [declare]
    split
    next s h => rw [hrepeated] at h; cases h
    next =>
      split
      next s h => simp [h, eq_comm]
      next h => simp [h]
  rw [undeclared]
  simp only [Cnf.firstUndeclared?_eq_some_iff]
  constructor
  · rintro ⟨s, ⟨before, l, after, split, declared, new, rfl⟩, rfl⟩
    exact ⟨before, l, after, split, declared, new, rfl⟩
  · rintro ⟨before, l, after, split, declared, new, rfl⟩
    exact ⟨l.symbol, ⟨before, l, after, split, declared, new, rfl⟩, rfl⟩

/-! ## Numbers as symbols -/

theorem mem_numbers {s : Symbol} {n : Nat} :
    s ∈ numbers n ↔ ∃ v, 0 < v ∧ v ≤ n ∧ s = v.repr := by
  rw [numbers, List.mem_map]
  constructor
  · rintro ⟨v, hv, rfl⟩
    rw [List.mem_range'_1] at hv
    exact ⟨v, by omega, by omega, rfl⟩
  · rintro ⟨v, pos, le, rfl⟩
    exact ⟨v, List.mem_range'_1.mpr (by omega), rfl⟩

/-- A number is declared if it is neither zero nor beyond the count. -/
theorem repr_mem_numbers {v n : Nat} : v.repr ∈ numbers n ↔ 0 < v ∧ v ≤ n := by
  rw [mem_numbers]
  constructor
  · rintro ⟨w, pos, le, h⟩
    rw [Text.repr_injective h]
    exact ⟨pos, le⟩
  · rintro ⟨pos, le⟩
    exact ⟨v, pos, le, rfl⟩

theorem nodup_numbers (n : Nat) : (numbers n).Nodup := by
  rw [numbers, List.Nodup, List.pairwise_map]
  refine (List.nodup_range' 1).imp ?_
  intro v w different h
  exact different (Text.repr_injective h)

theorem length_numbers (n : Nat) : (numbers n).length = n := by
  rw [numbers, List.length_map, List.length_range']

theorem variableCount_of_symbols {p : Problem} {n : Nat} (h : p.symbols = numbers n) :
    p.variableCount = n := by
  rw [variableCount, h, length_numbers]

/-! ## Numbers in a list -/

section Capacity

variable {cnf : Cnf} {n : Nat}

/-- Numbers that fit in a list are declared. -/
theorem ofVariables_of_le (fits : n ≤ symbolCapacity) :
    ofVariables cnf n = .ok (declare cnf (numbers n)) := by
  rw [ofVariables, listNumbers, if_pos fits]

/-- Too many numbers are a fault, even for clauses over other symbols. -/
theorem ofVariables_eq_fault_iff {fault : Fault} :
    ofVariables cnf n = .error fault ↔ symbolCapacity < n ∧ fault = .capacity := by
  rw [← Nat.not_le]
  by_cases fits : n ≤ symbolCapacity
  · simp [ofVariables_of_le fits, fits]
  · simp [ofVariables, listNumbers, fits, eq_comm]

example : symbolCapacity + 1 = 2 ^ 59 := by decide

/-- What comes of numbers that fit in a list, and of no others, is a problem or a refusal. -/
theorem ofVariables_eq_ok_iff {result : Except DeclarationError Problem} :
    ofVariables cnf n = .ok result ↔ n ≤ symbolCapacity ∧ declare cnf (numbers n) = result := by
  by_cases fits : n ≤ symbolCapacity
  · simp [ofVariables_of_le fits, fits]
  · simp [ofVariables, listNumbers, fits]

/-- Clauses are accepted over numbered variables if these fit in a list and are all their
symbols. -/
theorem exists_ofVariables_iff_mem_numbers :
    (∃ p, ofVariables cnf n = .ok (.ok p)) ↔
      n ≤ symbolCapacity ∧ ∀ l ∈ Cnf.literals cnf, l.symbol ∈ numbers n := by
  simp only [ofVariables_eq_ok_iff, exists_and_left, exists_declare_iff]
  refine and_congr_right fun _ => ?_
  constructor
  · rintro ⟨-, declared⟩ l hl
    obtain ⟨c, hc, hlc⟩ := Cnf.mem_literals.mp hl
    exact declared c hc l hlc
  · intro declared
    exact ⟨nodup_numbers n, fun c hc l hl => declared l (Cnf.mem_literals.mpr ⟨c, hc, hl⟩)⟩

/-- What is declared over numbered variables keeps its clauses and has these variables. -/
theorem of_ofVariables_eq_ok {p : Problem} (h : ofVariables cnf n = .ok (.ok p)) :
    p.clauses = cnf ∧ p.symbols = numbers n :=
  of_declare_eq_ok (ofVariables_eq_ok_iff.mp h).2

theorem variableCount_le_symbolCapacity {p : Problem} (h : ofVariables cnf n = .ok (.ok p)) :
    p.variableCount ≤ symbolCapacity := by
  rw [variableCount_of_symbols (of_ofVariables_eq_ok h).2]
  exact (ofVariables_eq_ok_iff.mp h).1

end Capacity

/-! ## Numbered variables -/

section Numbered

variable {cnf : Cnf} {n : Nat} (numbered : Cnf.Numbered cnf)

include numbered

/-- Numbered clauses make a problem if the count is no fault and no variable exceeds it. -/
theorem exists_ofVariables_iff :
    (∃ p, ofVariables cnf n = .ok (.ok p)) ↔
      n ≤ symbolCapacity ∧ ∀ v, Cnf.Uses cnf v → v ≤ n := by
  rw [exists_ofVariables_iff_mem_numbers]
  refine and_congr_right fun _ => ?_
  constructor
  · rintro declared v ⟨l, hl, symbol⟩
    have within := declared l hl
    rw [symbol, repr_mem_numbers] at within
    exact within.2
  · intro within l hl
    obtain ⟨v, hv⟩ := numbered l hl
    rw [hv.symbol, repr_mem_numbers]
    exact ⟨hv.pos, within v ⟨l, hl, hv.symbol⟩⟩

/-- Numbered clauses are refused because of the first literal whose variable exceeds the count. -/
theorem ofVariables_eq_error_iff {e : DeclarationError} :
    ofVariables cnf n = .ok (.error e) ↔ n ≤ symbolCapacity ∧ ∃ before l after v,
      Cnf.literals cnf = before ++ l :: after ∧ (∀ k ∈ before, ∀ w, k.symbol = w.repr → w ≤ n) ∧
        l.symbol = v.repr ∧ n < v ∧ e = .undeclared l.symbol := by
  rw [ofVariables_eq_ok_iff, declare_eq_error_iff (nodup_numbers n)]
  refine and_congr_right fun _ => ?_
  constructor
  · rintro ⟨before, l, after, split, declared, undeclared, rfl⟩
    obtain ⟨v, hv⟩ := numbered l (by simp [split])
    refine ⟨before, l, after, v, split, ?_, hv.symbol, ?_, rfl⟩
    · intro k hk w symbol
      have := declared k hk
      rw [symbol, repr_mem_numbers] at this
      exact this.2
    · rw [hv.symbol, repr_mem_numbers] at undeclared
      have := hv.pos
      omega
  · rintro ⟨before, l, after, v, split, within, symbol, beyond, rfl⟩
    refine ⟨before, l, after, split, ?_, ?_, rfl⟩
    · intro k hk
      obtain ⟨w, hw⟩ := numbered k (by simp [split, hk])
      rw [hw.symbol, repr_mem_numbers]
      exact ⟨hw.pos, within k hk w hw.symbol⟩
    · rw [symbol, repr_mem_numbers]
      omega

end Numbered

end Problem

end CnfSearch

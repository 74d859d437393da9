import CnfSearch.Proofs.Formula.Tokens

set_option autoImplicit false

/-!
# Canonical numerals

A positive number has many numerals, which differ in their leading zeros, and just one without any:
its canonical numeral (`Text.canonical_iff_toDigits`). The symbols of numbered variables are the
canonical numerals up to a count (`Text.isNumberUpTo_iff`), so a literal that a text can name is one
whose symbol is such a numeral (`Literal.exists_hasVariable_iff`).
-/

namespace CnfSearch

namespace Text

/-- A numeral that does not open with a zero. -/
structure Canonical (digits : List Char) (value : Nat) : Prop where
  numeral : Numeral digits value
  leading : digits.head? ≠ some '0'

/-- The symbol is the canonical numeral of a number from one up to a bound. -/
def IsNumberUpTo (bound : Nat) (s : String) : Prop :=
  ∃ v, Canonical s.toList v ∧ 1 ≤ v ∧ v ≤ bound

/-- A digit is the one that its value is written with. -/
theorem digitChar_of_isDigit {c : Char} (h : c.isDigit = true) :
    c.toNat - '0'.toNat < 10 ∧ Nat.digitChar (c.toNat - '0'.toNat) = c := by
  obtain ⟨above, below⟩ := Char.isDigit_iff_toNat.mp h
  have zero : '0'.toNat = 48 := rfl
  have nine : '9'.toNat = 57 := rfl
  have small : c.toNat - '0'.toNat < 10 := by omega
  refine ⟨small, ?_⟩
  rw [← Char.toNat_inj, Nat.toNat_digitChar_of_lt_ten small]
  omega

/-- Digits behind those of a positive number are the digits of the number that they all spell. -/
theorem toDigits_append_digits {init : Nat} (positive : 0 < init) {digits : List Char}
    (allDigits : ∀ c ∈ digits, c.isDigit = true) :
    Nat.toDigits 10 init ++ digits = Nat.toDigits 10 (Nat.ofDigitChars 10 digits init) := by
  -- The induction reads the digits from the left; the number read so far stays positive.
  induction digits generalizing init with
  | nil => rw [List.append_nil, Nat.ofDigitChars_nil]
  | cons c rest ih =>
    rw [List.forall_mem_cons] at allDigits
    obtain ⟨small, written⟩ := digitChar_of_isDigit allDigits.1
    have next : Nat.toDigits 10 init ++ [c] =
        Nat.toDigits 10 (10 * init + (c.toNat - '0'.toNat)) := by
      rw [← Nat.toDigits_append_toDigits (by decide) positive small,
        Nat.toDigits_of_lt_base small, written]
    rw [Nat.ofDigitChars_cons, ← ih (by omega) allDigits.2, ← next, List.append_assoc,
      List.singleton_append]

/-- A numeral without leading zeros consists of the digits of its value, which is not zero. -/
theorem Canonical.eq_toDigits {digits : List Char} {n : Nat} (h : Canonical digits n) :
    0 < n ∧ digits = Nat.toDigits 10 n := by
  obtain ⟨⟨nonempty, allDigits, value⟩, leading⟩ := h
  obtain ⟨first, rest, rfl⟩ := List.exists_cons_of_ne_nil nonempty
  rw [List.forall_mem_cons] at allDigits
  obtain ⟨small, written⟩ := digitChar_of_isDigit allDigits.1
  have notZero : first ≠ '0' := fun h => leading (congrArg some h)
  have positive : 0 < first.toNat - '0'.toNat := by
    apply Nat.pos_of_ne_zero
    intro zero
    rw [zero, Nat.digitChar_eq_zero.mpr rfl] at written
    exact notZero written.symm
  -- The first digit is a positive number of its own; the others continue it.
  have whole : first :: rest = Nat.toDigits 10 n := by
    rw [← value, Nat.ofDigitChars_cons, Nat.mul_zero, Nat.zero_add,
      ← toDigits_append_digits positive allDigits.2, Nat.toDigits_of_lt_base small, written,
      List.singleton_append]
  -- The digits of zero would open with a zero.
  refine ⟨Nat.pos_of_ne_zero ?_, whole⟩
  rintro rfl
  rw [Nat.toDigits_zero] at whole
  exact notZero (List.cons.inj whole).1

/-- The digits of a positive number do not open with a zero. -/
theorem head?_toDigits_ne_zero {n : Nat} (positive : 0 < n) :
    (Nat.toDigits 10 n).head? ≠ some '0' := by
  induction n using Nat.strongRecOn with
  | ind n ih =>
    by_cases small : n < 10
    · rw [Nat.toDigits_of_lt_base small, List.head?_cons, ne_eq, Option.some.injEq,
        Nat.digitChar_eq_zero]
      omega
    · -- The first digit is that of a tenth of the number.
      rw [Nat.toDigits_of_base_le (by decide) (Nat.le_of_not_lt small),
        List.head?_append_of_ne_nil _ Nat.toDigits_ne_nil]
      exact ih (n / 10) (by omega) (by omega)

/-- The canonical numeral of a positive number is the run of its digits. -/
theorem canonical_iff_toDigits {digits : List Char} {n : Nat} :
    Canonical digits n ↔ 0 < n ∧ digits = Nat.toDigits 10 n := by
  constructor
  · exact Canonical.eq_toDigits
  · rintro ⟨positive, rfl⟩
    exact ⟨numeral_toDigits n, head?_toDigits_ne_zero positive⟩

/-- The canonical numerals up to a bound are what the numbers up to it are written as. -/
theorem isNumberUpTo_iff {bound : Nat} {s : String} :
    IsNumberUpTo bound s ↔ ∃ v, 0 < v ∧ v ≤ bound ∧ s = v.repr := by
  have written : ∀ v : Nat, s.toList = Nat.toDigits 10 v ↔ s = v.repr := by
    intro v
    rw [← Nat.toList_repr, String.toList_inj]
  simp only [IsNumberUpTo, canonical_iff_toDigits, written]
  constructor
  · rintro ⟨v, ⟨positive, symbol⟩, -, le⟩
    exact ⟨v, positive, le, symbol⟩
  · rintro ⟨v, positive, le, symbol⟩
    exact ⟨v, ⟨positive, symbol⟩, positive, le⟩

end Text

/-- A literal that a text can name has a canonical numeral as its symbol. -/
theorem Literal.exists_hasVariable_iff {l : Literal} :
    (∃ v, l.HasVariable v) ↔ Text.IsNumberUpTo greatestVariable l.symbol := by
  rw [Text.isNumberUpTo_iff]
  constructor
  · rintro ⟨v, symbol, pos, le⟩
    exact ⟨v, pos, le, symbol⟩
  · rintro ⟨v, pos, le, symbol⟩
    exact ⟨v, symbol, pos, le⟩

end CnfSearch

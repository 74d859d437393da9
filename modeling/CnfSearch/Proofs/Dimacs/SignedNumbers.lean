import CnfSearch.Proofs.Dimacs.Clauses

set_option autoImplicit false

/-!
# Tokens and signed numbers

A token is a numeral behind at most one minus sign, and so it has a signed value. It is read exactly
if the value names a variable with a sign (`SignedVariable`), and the literal depends on nothing but
the value: it is the literal of that integer (`Literal.isLiteral_iff_ofInt`). Different integers
have different literals (`Literal.ofInt_injective`), and the written form of the literal is the
written form of the integer (`Literal.text_ofInt`). What this says about spellings of one number,
about signs and about writing and reading again is put together in `tokens_mean_signed_numbers`.
-/

namespace CnfSearch

/-- A numeral, in front of which a minus sign may stand, and its value. -/
inductive Text.SignedNumeral : List Char → Int → Prop where
  | plain {digits : List Char} {n : Nat} (numeral : Text.Numeral digits n) :
      Text.SignedNumeral digits n
  | minus {digits : List Char} {n : Nat} (numeral : Text.Numeral digits n) :
      Text.SignedNumeral ('-' :: digits) (-n)

/-- The token spells a signed number whose absolute value is a variable. -/
structure SignedVariable (token : List Char) (value : Int) : Prop where
  spelled : Text.SignedNumeral token value
  pos : 1 ≤ value.natAbs
  le : value.natAbs ≤ Literal.greatestVariable

/-! ## Literals of integers -/

namespace Literal

theorem ofInt_natCast {n : Nat} (pos : 0 < n) : ofInt n = ⟨n.repr, true⟩ := by
  have positive : (0 : Int) < n := by omega
  rw [ofInt, ofVariable, Int.natAbs_natCast, decide_eq_true positive]

theorem ofInt_neg_natCast (n : Nat) : ofInt (-n) = ⟨n.repr, false⟩ := by
  have negative : ¬ (0 : Int) < -n := by omega
  rw [ofInt, ofVariable, Int.natAbs_neg, Int.natAbs_natCast, decide_eq_false negative]

/-- Different integers have different literals. -/
theorem ofInt_injective : Function.Injective ofInt := by
  intro m n h
  obtain ⟨hsymbol, hsign⟩ := Literal.mk.inj h
  have magnitude : m.natAbs = n.natAbs := Text.repr_injective hsymbol
  rw [decide_eq_decide] at hsign
  omega

/-- The opposite integer has the opposite literal. -/
theorem opposite_ofInt {value : Int} (nonzero : value ≠ 0) :
    (ofInt value).opposite = ofInt (-value) := by
  have sign : (!decide (0 < value)) = decide (0 < -value) := by
    rw [← decide_not, decide_eq_decide]
    omega
  simp only [ofInt, ofVariable, opposite, Int.natAbs_neg, sign]

/-- The literal of an integer is written as the integer. -/
theorem text_ofInt {value : Int} (nonzero : value ≠ 0) : (ofInt value).text = value.repr := by
  cases value with
  | ofNat n =>
    have pos : 0 < n := by
      apply Nat.pos_of_ne_zero
      rintro rfl
      exact nonzero rfl
    rw [Int.ofNat_eq_natCast, ofInt_natCast pos]
    rfl
  | negSucc n =>
    rw [Int.negSucc_eq, ← Int.natCast_succ, ofInt_neg_natCast]
    rfl

end Literal

/-! ## Tokens -/

section Token

variable {token : List Char} {value : Int} {l : Literal}

/-- A token spells at most one number. -/
theorem Text.SignedNumeral.unique {m n : Int} (hm : Text.SignedNumeral token m)
    (hn : Text.SignedNumeral token n) : m = n := by
  have same : ∀ {digits : List Char} {i j : Nat}, Text.Numeral digits i → Text.Numeral digits j →
      i = j := fun hi hj => hi.value.symm.trans hj.value
  cases hm with
  | plain first =>
    cases hn with
    | plain second => rw [same first second]
    | minus second => exact absurd rfl (first.head_ne (by decide))
  | minus first =>
    cases hn with
    | plain second => exact absurd rfl (second.head_ne (by decide))
    | minus second => rw [same first second]

/-- The number is positive exactly if no minus sign stands in front. -/
theorem SignedVariable.pos_iff (h : SignedVariable token value) :
    0 < value ↔ token.head? ≠ some '-' := by
  obtain ⟨spelled, pos, -⟩ := h
  cases spelled with
  | plain numeral =>
    refine iff_of_true (by omega) fun sign => ?_
    obtain ⟨rest, rfl⟩ := List.head?_eq_some_iff.mp sign
    exact numeral.head_ne (by decide) rfl
  | minus numeral => exact iff_of_false (by omega) fun unsigned => unsigned rfl

/-- A token is a literal exactly if it spells a signed variable, and then it is that of the
number. -/
theorem Literal.isLiteral_iff_ofInt :
    IsLiteral token l ↔ ∃ value, SignedVariable token value ∧ l = ofInt value := by
  constructor
  · intro h
    cases h with
    | @positive _ n numeral pos le =>
      exact ⟨n, ⟨.plain numeral, by omega, by omega⟩, (ofInt_natCast pos).symm⟩
    | @negative _ n numeral pos le =>
      exact ⟨-n, ⟨.minus numeral, by omega, by omega⟩, (ofInt_neg_natCast n).symm⟩
  · rintro ⟨value, ⟨spelled, pos, le⟩, rfl⟩
    cases spelled with
    | @plain _ n numeral =>
      rw [Int.natAbs_natCast] at pos le
      rw [ofInt_natCast pos]
      exact .positive numeral pos le
    | @minus _ n numeral =>
      rw [Int.natAbs_neg, Int.natAbs_natCast] at pos le
      rw [ofInt_neg_natCast]
      exact .negative numeral pos le

/-- The literal that a token is read as is the one of its number. -/
theorem SignedVariable.eq_ofInt (h : SignedVariable token value)
    (read : Literal.parse token = .ok l) : l = Literal.ofInt value := by
  obtain ⟨other, hother, rfl⟩ := Literal.isLiteral_iff_ofInt.mp (Literal.parse_eq_ok_iff.mp read)
  rw [h.spelled.unique hother.spelled]

theorem SignedVariable.ne_zero (h : SignedVariable token value) : value ≠ 0 := by
  have pos := h.pos
  omega

end Token

/-- A token is read exactly if it is a numeral without plus sign, behind at most one minus sign,
whose value is a number from one to the greatest variable. The literal is positive exactly if there
is no minus sign, and its symbol is the canonical numeral of the value. So the literals of two
tokens are equal exactly if their signed numbers are, and opposite exactly if these are; the written
form of a literal that was read is read as the same literal; and the written form of an integer
other than zero is read as the literal of that integer. -/
theorem tokens_mean_signed_numbers (token : List Char) :
    ((∃ l, Literal.parse token = .ok l) ↔ ∃ value, SignedVariable token value) ∧
    (∀ l value, Literal.parse token = .ok l → SignedVariable token value →
      (l.positive = true ↔ token.head? ≠ some '-') ∧
        Text.Canonical l.symbol.toList value.natAbs) ∧
    (∀ other k l m n, Literal.parse token = .ok k → Literal.parse other = .ok l →
      SignedVariable token m → SignedVariable other n →
        (k = l ↔ m = n) ∧ (k = l.opposite ↔ m = -n)) ∧
    (∀ l, Literal.parse token = .ok l → Literal.parse l.text.toList = .ok l) ∧
    ∀ value : Int, value ≠ 0 → FitsSigned32 value →
      Literal.parse value.repr.toList = .ok (Literal.ofInt value) := by
  refine ⟨?_, ?_, ?_, ?_, ?_⟩
  · simp only [Literal.parse_eq_ok_iff, Literal.isLiteral_iff_ofInt]
    rw [exists_comm]
    simp only [exists_and_left, exists_eq, and_true]
  · intro l value read number
    obtain rfl := number.eq_ofInt read
    refine ⟨?_, Text.canonical_iff_toDigits.mpr ⟨number.pos, Nat.toList_repr⟩⟩
    rw [← number.pos_iff]
    exact decide_eq_true_iff
  · intro other k l m n readToken readOther hm hn
    obtain rfl := hm.eq_ofInt readToken
    obtain rfl := hn.eq_ofInt readOther
    rw [Literal.opposite_ofInt hn.ne_zero]
    exact ⟨Literal.ofInt_injective.eq_iff, Literal.ofInt_injective.eq_iff⟩
  · intro l read
    rw [Literal.parse_eq_ok_iff] at read ⊢
    obtain ⟨v, hv⟩ := Literal.hasVariable_of_isLiteral read
    exact hv.isLiteral_text
  · intro value nonzero fits
    rw [← Literal.text_ofInt nonzero, Literal.parse_eq_ok_iff]
    exact (Literal.hasVariable_ofInt nonzero fits).isLiteral_text

/-- Minus seven with leading zeros is read as the opposite of seven and written without them; a plus
sign is refused; the least integer is read back. -/
theorem tokens_mean_signed_numbers_sevens :
    SignedVariable ['-', '0', '0', '7'] (-7) ∧ SignedVariable ['7'] 7 ∧
      Literal.parse ['-', '0', '0', '7'] = .ok ⟨"7", false⟩ ∧
      Literal.parse ['7'] = .ok ⟨"7", true⟩ ∧
      Text.Canonical (Literal.mk "7" false).symbol.toList 7 ∧
      Literal.mk "7" false = (Literal.mk "7" true).opposite ∧
      Literal.parse (Literal.mk "7" false).text.toList = .ok ⟨"7", false⟩ ∧
      (¬ ∃ value, SignedVariable ['+', '7'] value) ∧
      (-2147483648 : Int) ≠ 0 ∧ FitsSigned32 (-2147483648) ∧
      Literal.parse (-2147483648 : Int).repr.toList = .ok (Literal.ofInt (-2147483648)) := by
  have minus : SignedVariable ['-', '0', '0', '7'] (-7) :=
    ⟨.minus ⟨by decide, by simp, by decide⟩, by decide, by decide⟩
  have seven : SignedVariable ['7'] 7 :=
    ⟨.plain ⟨by decide, by simp, by decide⟩, by decide, by decide⟩
  have readMinus : Literal.parse ['-', '0', '0', '7'] = .ok ⟨"7", false⟩ := by decide
  have readSeven : Literal.parse ['7'] = .ok ⟨"7", true⟩ := by decide
  obtain ⟨-, meaning, compared, again, integers⟩ :=
    tokens_mean_signed_numbers ['-', '0', '0', '7']
  have refused : ¬ ∃ l, Literal.parse ['+', '7'] = .ok l := by
    rintro ⟨l, h⟩
    cases h
  have nonzero : (-2147483648 : Int) ≠ 0 := by decide
  have fits : FitsSigned32 (-2147483648) := ⟨by decide, by decide⟩
  exact ⟨minus, seven, readMinus, readSeven, (meaning _ _ readMinus minus).2,
    (compared _ _ _ _ _ readMinus readSeven minus seven).2.mpr rfl, again _ readMinus,
    fun spelled => refused ((tokens_mean_signed_numbers ['+', '7']).1.mpr spelled),
    nonzero, fits, integers _ nonzero fits⟩

end CnfSearch

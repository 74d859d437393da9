set_option autoImplicit false

/-!
# Decimal numerals

Readers for numbers written with the digits `0` to `9`. Leading zeros are allowed and a numeral has
at least one digit; which sign may stand in front, and how large the value may be, is said by each
reader. `natural?_toDigits` says that the digits of a number read back.
-/

namespace CnfSearch.Text

/-- The value of a non-empty run of digits. -/
def natural? (cs : List Char) : Option Nat :=
  if cs ≠ [] ∧ cs.all Char.isDigit = true then some (Nat.ofDigitChars 10 cs 0) else none

/-- The value of a numeral below `bound`; a plus sign may stand in front. -/
def below? (bound : Nat) (cs : List Char) : Option Nat :=
  let digits := match cs with
    | '+' :: rest => rest
    | _ => cs
  (natural? digits).filter fun n => decide (n < bound)

/-- Numbers that fit in a machine word of 64 bits. -/
def wordBound : Nat := Nat.pow 2 64

/-- The bound of the magnitudes of 32 bits with sign; only a negative number may reach it. -/
def signed32Bound : Nat := Nat.pow 2 31

/-- The value of a signed numeral that fits in 32 bits; either sign may stand in front. -/
def signed32? (cs : List Char) : Option Int :=
  match cs with
  | '-' :: rest => (natural? rest).bind fun n => if n ≤ signed32Bound then some (-(n : Int)) else none
  | '+' :: rest => (natural? rest).bind fun n => if n < signed32Bound then some (n : Int) else none
  | _ => (natural? cs).bind fun n => if n < signed32Bound then some (n : Int) else none

/-- The digits of a number read back as that number. -/
theorem natural?_toDigits (n : Nat) : natural? (Nat.toDigits 10 n) = some n := by
  have digits : (Nat.toDigits 10 n).all Char.isDigit = true := by
    rw [List.all_eq_true]
    intro c hc
    exact Nat.isDigit_of_mem_toDigits (by decide : 0 < 10) (Nat.le_refl 10) hc
  simp [natural?, digits, Nat.toDigits_ne_nil, Nat.ofDigitChars_ten_toDigits]

theorem natural?_repr (n : Nat) : natural? n.repr.toList = some n := by
  rw [Nat.toList_repr, natural?_toDigits]

/-- Different numbers have different digits. -/
theorem repr_injective {m n : Nat} (h : m.repr = n.repr) : m = n := by
  have value := natural?_repr m
  rw [h, natural?_repr, Option.some.injEq] at value
  exact value.symm

/-- Only runs of digits have a value. -/
theorem natural?_eq_some_iff {cs : List Char} {n : Nat} :
    natural? cs = some n ↔
      cs ≠ [] ∧ cs.all Char.isDigit = true ∧ Nat.ofDigitChars 10 cs 0 = n := by
  rw [natural?]
  split
  next h => simp [h.1, h.2]
  next h =>
    constructor
    · intro hn
      cases hn
    · rintro ⟨hne, hall, _⟩
      exact absurd ⟨hne, hall⟩ h

end CnfSearch.Text

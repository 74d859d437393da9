set_option autoImplicit false

/-!
# Cutting a sequence at its breaks

`pieces` cuts a sequence at the elements that a test marks as breaks. A break ends the piece before
it and opens none behind it, so a last break adds no empty piece: this is how lines end. The main
equations are `pieces_cons_of_break` and `pieces_cons_of_not_break`.
-/

namespace CnfSearch.Text

/-- Cut a sequence at its breaks; the breaks belong to no piece. -/
def pieces {α : Type} (isBreak : α → Bool) (items : List α) : List (List α) :=
  items.foldr
    (fun item rest =>
      if isBreak item then [] :: rest
      else
        match rest with
        | [] => [[item]]
        | piece :: more => (item :: piece) :: more)
    []

@[simp] theorem pieces_nil {α : Type} (isBreak : α → Bool) : pieces isBreak [] = [] := rfl

/-- A break in front is an empty piece in front. -/
theorem pieces_cons_of_break {α : Type} {isBreak : α → Bool} {item : α} (items : List α)
    (h : isBreak item = true) : pieces isBreak (item :: items) = [] :: pieces isBreak items := by
  simp [pieces, h]

/-- Any other element joins the first piece. -/
theorem pieces_cons_of_not_break {α : Type} {isBreak : α → Bool} {item : α} (items : List α)
    (h : isBreak item = false) :
    pieces isBreak (item :: items) =
      match pieces isBreak items with
      | [] => [[item]]
      | piece :: more => (item :: piece) :: more := by
  simp [pieces, h]

end CnfSearch.Text

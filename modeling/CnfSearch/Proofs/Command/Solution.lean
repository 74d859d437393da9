import CnfSearch.Command.Solve
import CnfSearch.Proofs.Dimacs.RoundTrip
import CnfSearch.Proofs.Model.Equality

set_option autoImplicit false

/-!
# Printed models read back

A model of numbered symbols is printed as one word for each symbol, in the order of the symbols, and
these words stand for the literals that the model holds (`Problem.words_formatModel`,
`Problem.mapM_parse_words`). The literals make the model again, up to the order in which its symbols
were assigned, so two models that are printed alike are equal: `solution_line_lossless`.
-/

namespace CnfSearch

namespace Problem

variable {p : Problem} {n : Nat} (bound : n ≤ Literal.greatestVariable)
  (numbered : p.symbols.Perm (numbers n))

include bound numbered

/-- A text can name the literals of the symbols, whatever their values are. -/
theorem exists_hasVariable_of_mem_literals {v : Valuation} :
    ∀ l ∈ v.literals p.symbols, ∃ k, l.HasVariable k := by
  intro l hl
  obtain ⟨s, hs, rfl⟩ := List.mem_map.mp hl
  obtain ⟨k, pos, le, rfl⟩ := mem_numbers.mp (numbered.mem_iff.mp hs)
  exact ⟨k, rfl, pos, Nat.le_trans le bound⟩

variable {a : Assignment} (assigns : a.symbols.Perm p.symbols)

include assigns

/-- A printed model has one word for each symbol, in the order of the symbols. -/
theorem words_formatModel : Text.words (p.formatModel a).toList =
    (a.valuation.literals p.symbols).map fun l => l.text.toList := by
  have listed : a.inOrder p.symbols = a.valuation.literals p.symbols :=
    Assignment.inOrder_eq_literals fun s hs => assigns.mem_iff.mpr hs
  have joined : (p.formatModel a).toList =
      [' '].intercalate ((a.valuation.literals p.symbols).map fun l => l.text.toList) := by
    rw [formatModel, listed, String.toList_intercalate, List.map_map]
    rfl
  rw [joined, Text.words_intercalate]
  -- Each word stands for a literal, and no literal is written with a blank.
  rw [List.forall_mem_map]
  intro l hl
  obtain ⟨k, hk⟩ := exists_hasVariable_of_mem_literals bound numbered l hl
  exact hk.isLiteral_text.isWord

/-- Each word is read as the literal of its symbol with the value that the model gives it. -/
theorem forall₂_parse_words : List.Forall₂ (fun token s => ∃ value, a.value? s = some value ∧
    Literal.parse token = .ok ⟨s, value⟩) (Text.words (p.formatModel a).toList) p.symbols := by
  rw [words_formatModel bound numbered assigns, Valuation.literals, List.map_map,
    List.forall₂_map_left_iff, List.forall₂_same]
  intro s hs
  have assigned : s ∈ a.symbols := assigns.mem_iff.mpr hs
  refine ⟨a.valuation s, Assignment.value?_eq_some_valuation assigned, ?_⟩
  have held : (⟨s, a.valuation s⟩ : Literal) ∈ a.valuation.literals p.symbols :=
    List.mem_map_of_mem hs
  obtain ⟨k, hk⟩ := exists_hasVariable_of_mem_literals bound numbered _ held
  exact Literal.parse_eq_ok_iff.mpr hk.isLiteral_text

/-- All words together are read as the values of the symbols. -/
theorem mapM_parse_words : (Text.words (p.formatModel a).toList).mapM Literal.parse =
    .ok (a.valuation.literals p.symbols) := by
  rw [words_formatModel bound numbered assigns, mapM_eq_ok_iff]
  simp only [Literal.parse_eq_ok_iff]
  exact Literal.forall₂_isLiteral_text (exists_hasVariable_of_mem_literals bound numbered)

/-- Models that are printed alike are equal, and equal ones are printed alike. -/
theorem formatModel_eq_iff {b : Assignment} (assigned : b.symbols.Perm p.symbols) :
    p.formatModel b = p.formatModel a ↔ (b == a) = true := by
  rw [Assignment.beq_iff_perm]
  constructor
  · intro alike
    -- Both models are read from the same words.
    have values := mapM_parse_words bound numbered assigned
    rw [alike, mapM_parse_words bound numbered assigns, Except.ok.injEq] at values
    have listed := Assignment.toList_perm_literals assigned
    rw [← values] at listed
    exact listed.trans (Assignment.toList_perm_literals assigns).symm
  · intro same
    exact p.formatModel_congr (Assignment.value?_eq_iff_perm.mpr same)

end Problem

/-- The lines with the models are the same exactly if the models are printed alike. -/
theorem Command.resultLines_eq_iff {p : Problem} {a b : Assignment} :
    resultLines p (.ok b) true = resultLines p (.ok a) true ↔
      p.formatModel b = p.formatModel a := by
  simp [resultLines, verdict]

/-- A printed model of the numbers up to a count that a text can name has as many words. Each word
is read as the literal of its symbol with the value that the model gives it; all words together are
read as an assignment that is equal to the model and printed as it is. So the lines that are printed
for a model determine it. -/
theorem solution_line_lossless {n : Nat} (bound : n ≤ Literal.greatestVariable) {p : Problem}
    (numbered : p.symbols.Perm (Problem.numbers n)) {a : Assignment}
    (assigns : a.symbols.Perm p.symbols) :
    let tokens := Text.words (p.formatModel a).toList
    tokens.length = n ∧
    List.Forall₂ (fun token s => ∃ value, a.value? s = some value ∧
      Literal.parse token = .ok ⟨s, value⟩) tokens p.symbols ∧
    (∃ ls b, tokens.mapM Literal.parse = .ok ls ∧ Assignment.ofLiterals ls = .ok b ∧
      (b == a) = true ∧ p.formatModel b = p.formatModel a) ∧
    ∀ b : Assignment, b.symbols.Perm p.symbols →
      (Command.resultLines p (.ok b) true = Command.resultLines p (.ok a) true ↔
        (b == a) = true) := by
  intro tokens
  have each := Problem.forall₂_parse_words bound numbered assigns
  have all := Problem.mapM_parse_words bound numbered assigns
  refine ⟨?_, each, ?_, ?_⟩
  · rw [each.length_eq, numbered.length_eq, Problem.length_numbers]
  · obtain ⟨b, made, symbols, equal⟩ := Assignment.exists_beq_of_valuation p.distinct assigns
    refine ⟨_, b, all, made, equal, ?_⟩
    rw [Problem.formatModel_eq_iff bound numbered assigns (.of_eq symbols)]
    exact equal
  · intro b assigned
    rw [Command.resultLines_eq_iff]
    exact Problem.formatModel_eq_iff bound numbered assigns assigned

/-- Numbered symbols without clauses. -/
def Problem.free (count : Nat) : Problem where
  clauses := []
  symbols := numbers count
  distinct := nodup_numbers count
  declared := fun _ hc => absurd hc List.not_mem_nil

/-- A model that got its values in another order than that of the symbols. -/
theorem solution_line_lossless_reordered :
    3 ≤ Literal.greatestVariable ∧ (Problem.free 3).symbols.Perm (Problem.numbers 3) ∧
    ∃ a : Assignment, a.toList = [⟨"3", true⟩, ⟨"1", false⟩, ⟨"2", true⟩] ∧
      a.symbols.Perm (Problem.free 3).symbols ∧ (Problem.free 3).formatModel a = "-1 2 3" ∧
      (Text.words "-1 2 3".toList).length = 3 ∧
      ∃ ls b, (Text.words "-1 2 3".toList).mapM Literal.parse = .ok ls ∧
        Assignment.ofLiterals ls = .ok b ∧ (b == a) = true ∧
          (Problem.free 3).formatModel b = "-1 2 3" := by
  have bound : 3 ≤ Literal.greatestVariable := by decide
  have numbered : (Problem.free 3).symbols.Perm (Problem.numbers 3) := .refl _
  obtain ⟨a, -, ha⟩ :=
    Assignment.exists_ofLiterals [⟨"3", true⟩, ⟨"1", false⟩, ⟨"2", true⟩] (by decide)
  have assigns : a.symbols.Perm (Problem.free 3).symbols := by
    rw [Assignment.symbols, ha]
    decide
  have found : ∀ l ∈ a.toList, a.find? l.symbol = some l :=
    fun l hl => (a.find?_eq_some_iff _ _).mpr ⟨hl, rfl⟩
  simp only [ha, List.forall_mem_cons] at found
  obtain ⟨third, first, second, -⟩ := found
  have printed : (Problem.free 3).formatModel a = "-1 2 3" := by
    have symbols : (Problem.free 3).symbols = ["1", "2", "3"] := by decide
    rw [Problem.formatModel, Assignment.inOrder, symbols, List.filterMap_cons_some first,
      List.filterMap_cons_some second, List.filterMap_cons_some third, List.filterMap_nil]
    decide
  obtain ⟨count, -, ⟨ls, b, read, made, equal, again⟩, -⟩ :=
    solution_line_lossless bound numbered assigns
  rw [printed] at count read again
  exact ⟨bound, numbered, a, ha, assigns, printed, count, ls, b, read, made, equal, again⟩

end CnfSearch

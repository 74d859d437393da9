import CnfSearch.Command.Solve
import CnfSearch.Proofs.Model.Symbols

set_option autoImplicit false

/-!
# The lines before a verdict

A verdict opens with two capital letters. The lines of the table do not, and a model of numbered
variables is written without any letter, so neither can be taken for a verdict or for the report of
a failed check: `plain_of_mem_statistics` and `plain_formatModel`. The result lines therefore end
with the only verdict (`soleVerdict_resultLines`), and lines put before them change nothing about
that (`SoleVerdict.prepend`).
-/

namespace CnfSearch.Command

/-- A line that is no verdict and reports no failed check. -/
structure Plain (line : String) : Prop where
  noVerdict : ∀ answer, line ≠ verdict answer
  noFailedCheck : line ≠ "Verified: false"

/-- A verdict opens with two capital letters. -/
theorem opening_verdict (answer : Answer) : ∃ c d, (verdict answer).toList.head? = some c ∧
    (verdict answer).toList[1]? = some d ∧ c.isUpper = true ∧ d.isUpper = true := by
  rcases answer with (_ | steps | s) | model
  · exact ⟨'U', 'N', by simp [verdict], by simp [verdict], rfl, rfl⟩
  · exact ⟨'U', 'N', by simp [verdict], by simp [verdict], rfl, rfl⟩
  · exact ⟨'U', 'N', by simp [verdict], by simp [verdict], rfl, rfl⟩
  · exact ⟨'S', 'A', by simp [verdict], by simp [verdict], rfl, rfl⟩

/-- A line whose second character is no capital letter is no verdict. -/
theorem ne_verdict {line : String} (h : ∀ c, line.toList[1]? = some c → c.isUpper = false)
    (answer : Answer) : line ≠ verdict answer := by
  rintro rfl
  obtain ⟨c, d, -, hsecond, -, upper⟩ := opening_verdict answer
  rw [h d hsecond] at upper
  cases upper

/-- A line that opens with no capital letter is plain. -/
theorem plain_of_head? {line : String} (h : ∀ c, line.toList.head? = some c → c.isUpper = false) :
    Plain line where
  noVerdict := by
    rintro answer rfl
    obtain ⟨c, d, hfirst, -, upper, -⟩ := opening_verdict answer
    rw [h c hfirst] at upper
    cases upper
  noFailedCheck := by
    rintro rfl
    cases h 'V' rfl

/-! ## The table -/

theorem plain_row (label value : String) : Plain (row label value) := by
  apply plain_of_head?
  simp [row]

theorem plain_rateRow (label : String) (count : Nat) (time : Option Nat) :
    Plain (rateRow label count time) := by
  apply plain_of_head?
  simp [rateRow]

theorem plain_of_mem_statistics (p : Problem) (outcome : Outcome) (m : Measures) :
    ∀ line ∈ statistics p outcome m, Plain line := by
  -- Apart from the rows the table has an empty line and three rules.
  have rules : Plain "" ∧
      Plain "=======================[ Problem Statistics ]=========================" ∧
      Plain "========================[ Search Statistics ]========================" ∧
      Plain "=====================================================================" := by
    refine ⟨?_, ?_, ?_, ?_⟩ <;> apply plain_of_head? <;> simp
  simpa [statistics, plain_row, plain_rateRow] using rules

/-! ## The model -/

/-- The symbols of numbered variables are written without capital letters. -/
def Numbered (p : Problem) : Prop := ∀ s ∈ p.symbols, ∀ c ∈ s.toList, c.isUpper = false

theorem isUpper_of_isDigit {c : Char} (h : c.isDigit = true) : c.isUpper = false := by
  have below : c.toNat ≤ '9'.toNat := (Char.isDigit_iff_toNat.mp h).2
  apply decide_eq_false
  rintro ⟨above, -⟩
  have above' : 'A'.toNat ≤ c.toNat := UInt32.le_iff_toNat_le.mp above
  exact absurd (Nat.le_trans above' below) (by decide)

theorem numbered_of_numbers {p : Problem} {count : Nat} (h : p.symbols = Problem.numbers count) :
    Numbered p := by
  intro s hs c hc
  rw [h, Problem.numbers, List.mem_map] at hs
  obtain ⟨n, -, rfl⟩ := hs
  rw [Nat.toList_repr] at hc
  exact isUpper_of_isDigit (Nat.isDigit_of_mem_toDigits (by decide) (by decide) hc)

theorem mem_toList_intercalate {sep : String} {ls : List String} {c : Char}
    (h : c ∈ (sep.intercalate ls).toList) : c ∈ sep.toList ∨ ∃ s ∈ ls, c ∈ s.toList := by
  induction ls with
  | nil => simp at h
  | cons s rest ih =>
    -- A separator stands only between two texts.
    cases rest with
    | nil => exact Or.inr ⟨s, by simp, by simpa using h⟩
    | cons t rest =>
      rw [String.intercalate_cons_cons, String.toList_append, String.toList_append, List.mem_append,
        List.mem_append] at h
      rcases h with (hs | hsep) | hrest
      · exact Or.inr ⟨s, by simp, hs⟩
      · exact Or.inl hsep
      · rcases ih hrest with hsep | ⟨u, hu, hc⟩
        · exact Or.inl hsep
        · exact Or.inr ⟨u, List.mem_cons_of_mem s hu, hc⟩

theorem mem_toList_text {l : Literal} {c : Char} (h : c ∈ l.text.toList) :
    c = '-' ∨ c ∈ l.symbol.toList := by
  rw [Literal.text] at h
  split at h
  next => exact Or.inr h
  next => simpa using h

/-- The literals of some symbols have these symbols. -/
theorem symbol_mem_of_mem_inOrder {a : Assignment} {symbols : List Symbol} {l : Literal}
    (h : l ∈ a.inOrder symbols) : l.symbol ∈ symbols := by
  obtain ⟨s, hs, hfind⟩ := List.mem_filterMap.mp h
  obtain ⟨-, rfl⟩ := (a.find?_eq_some_iff s l).mp hfind
  exact hs

/-- The written model has no capital letters. -/
theorem plain_formatModel {p : Problem} (numbered : Numbered p) (a : Assignment) :
    Plain (p.formatModel a) := by
  apply plain_of_head?
  intro c hc
  -- The first character is a blank, a minus sign or a part of a symbol.
  rcases mem_toList_intercalate (List.mem_of_mem_head? hc) with hblank | ⟨text, htext, hc⟩
  · obtain rfl : c = ' ' := by simpa using hblank
    rfl
  · obtain ⟨l, hl, rfl⟩ := List.mem_map.mp htext
    rcases mem_toList_text hc with rfl | hsymbol
    · rfl
    · exact numbered _ (symbol_mem_of_mem_inOrder hl) c hsymbol

/-! ## Lines with a verdict -/

/-- The last line is a given verdict, and the lines before it are plain. -/
def SoleVerdict (text : String) (lines : List String) : Prop :=
  ∃ before, lines = before ++ [text] ∧ ∀ line ∈ before, Plain line

theorem SoleVerdict.prepend {text : String} {more lines : List String} (h : SoleVerdict text lines)
    (plain : ∀ line ∈ more, Plain line) : SoleVerdict text (more ++ lines) := by
  obtain ⟨before, rfl, hbefore⟩ := h
  refine ⟨more ++ before, (List.append_assoc _ _ _).symm, ?_⟩
  rw [List.forall_mem_append]
  exact ⟨plain, hbefore⟩

/-- With a verdict on an answer no failed check is reported. -/
theorem SoleVerdict.no_failedCheck {answer : Answer} {lines : List String}
    (h : SoleVerdict (verdict answer) lines) : "Verified: false" ∉ lines := by
  obtain ⟨before, rfl, hbefore⟩ := h
  rw [List.mem_append, List.mem_singleton]
  rintro (hmem | hlast)
  · exact (hbefore _ hmem).noFailedCheck rfl
  · exact ne_verdict (by simp) answer hlast

theorem plain_solutionTitle : Plain "Solution:" where
  noVerdict := ne_verdict (by simp)
  noFailedCheck := by decide

theorem plain_passedCheck : Plain "Verified: true" where
  noVerdict := ne_verdict (by simp)
  noFailedCheck := by decide

theorem soleVerdict_resultLines {p : Problem} (numbered : Numbered p) (answer : Answer)
    (printSolution : Bool) :
    SoleVerdict (verdict answer) (resultLines p answer printSolution) := by
  have blank : Plain "" := plain_of_head? (by simp)
  have ending : SoleVerdict (verdict answer) ["", verdict answer] :=
    ⟨[""], rfl, by simpa using blank⟩
  apply ending.prepend
  cases answer with
  | ok model =>
    cases printSolution with
    | true => simpa using ⟨plain_solutionTitle, plain_formatModel numbered model⟩
    | false => simp
  | error failure => simp

end CnfSearch.Command

import CnfSearch.Dimacs.Writer
import CnfSearch.Proofs.Dimacs.Format
import CnfSearch.Proofs.Text.Words

set_option autoImplicit false

/-!
# Written problems read back

The written form of a problem consists of joined words (`toList_text`). If its variables are
numbered, fit in a list, and its clauses are counted by a machine word (`Writable`), the first line
has the form of a problem line and the others have the forms of its clauses, so reading returns the
problem and notes no wrong count: `read_text`. The problems that are read and those that are declared
over numbered variables are of this kind, hence `read_text_of_obtained`.
-/

namespace CnfSearch

/-! ## Words of the written form -/

theorem Text.Numeral.isWord {digits : List Char} {n : Nat} (h : Text.Numeral digits n) :
    Text.IsWord digits :=
  ⟨h.nonempty, fun c hc => Text.not_isSpace_of_isDigit (h.allDigits c hc)⟩

namespace IsLiteral

variable {token : List Char} {l : Literal}

theorem isWord (h : IsLiteral token l) : Text.IsWord token := by
  cases h with
  | positive numeral => exact numeral.isWord
  | negative numeral =>
    refine ⟨List.cons_ne_nil _ _, ?_⟩
    rw [List.forall_mem_cons]
    exact ⟨by decide, numeral.isWord.unbroken⟩

/-- A literal opens with a minus sign or a digit. -/
theorem exists_first (h : IsLiteral token l) :
    ∃ first rest, token = first :: rest ∧ (first = '-' ∨ first.isDigit = true) := by
  cases h with
  | positive numeral =>
    obtain ⟨first, rest, rfl⟩ := List.exists_cons_of_ne_nil numeral.nonempty
    exact ⟨first, rest, rfl, .inr (numeral.allDigits first List.mem_cons_self)⟩
  | @negative digits => exact ⟨'-', digits, rfl, .inl rfl⟩

/-- No literal ends a clause. -/
theorem isTerminator_eq_false (h : IsLiteral token l) : Clause.isTerminator token = false := by
  have notZero : ∀ {n}, Text.Numeral ['0'] n → n = 0 := fun numeral => numeral.value.symm
  rw [Clause.isTerminator, Bool.or_eq_false_iff, beq_eq_false_iff_ne, beq_eq_false_iff_ne]
  cases h with
  | positive numeral pos =>
    constructor
    · rintro rfl
      have := notZero numeral
      omega
    · rintro rfl
      exact numeral.head_ne (by decide) rfl
  | negative numeral pos =>
    constructor
    · intro h
      cases h
    · intro h
      cases h
      have := notZero numeral
      omega

end IsLiteral

/-- The words of a written clause: its literals and the terminator. -/
def Clause.textWords (c : Clause) : List (List Char) :=
  c.literals.map (fun l => l.text.toList) ++ [['0']]

theorem Clause.toList_text (c : Clause) : c.text.toList = [' '].intercalate c.textWords := by
  have nonempty : c.literals.map Literal.text ≠ [] := by simpa using c.nonempty
  have joined : c.text = " ".intercalate (c.literals.map Literal.text ++ ["0"]) := by
    rw [String.intercalate_append_of_ne_nil nonempty (List.cons_ne_nil _ _),
      String.intercalate_singleton, String.append_assoc]
    rfl
  rw [joined, String.toList_intercalate, List.map_append, List.map_map]
  rfl

namespace Problem

/-- The words of the problem line. -/
def headerWords (p : Problem) : List (List Char) :=
  [['p'], ['c', 'n', 'f'], Nat.toDigits 10 p.variableCount, Nat.toDigits 10 p.clauseCount]

theorem toList_headerText (p : Problem) :
    p.headerText.toList = [' '].intercalate p.headerWords := by
  simp only [headerText, headerWords, String.toList_append, Nat.toList_repr,
    List.intercalate_cons_cons, List.intercalate_singleton]
  simp

/-- The words of the written form, line by line. -/
def textWords (p : Problem) : List (List (List Char)) :=
  p.headerWords :: p.clauses.map Clause.textWords

/-- The written form consists of joined words, one line for the counts and one for each clause. -/
theorem toList_text (p : Problem) :
    p.text.toList = (p.textWords.map [' '].intercalate).flatMap fun line => line ++ ['\n'] := by
  have hlines : p.textLines.map String.toList = p.textWords.map [' '].intercalate := by
    rw [textLines, textWords, List.map_cons, List.map_cons, toList_headerText, List.map_map,
      List.map_map]
    congr 1
    apply List.map_congr_left
    intro c _
    exact c.toList_text
  rw [← hlines, text, String.toList_join, List.flatMap_map, List.flatMap_map]
  congr 1
  funext line
  exact String.toList_append

end Problem

namespace Dimacs

/-! ## Lines of the written form -/

section Clause

variable {c : Clause} (numbered : ∀ l ∈ c.literals, ∃ v, l.HasVariable v)

include numbered

theorem isWord_of_mem_clauseWords : ∀ word ∈ c.textWords, Text.IsWord word := by
  intro word hword
  rcases List.mem_append.mp hword with hliteral | hterminator
  · obtain ⟨l, hl, rfl⟩ := List.mem_map.mp hliteral
    obtain ⟨v, hv⟩ := numbered l hl
    exact hv.isLiteral_text.isWord
  · obtain rfl := List.mem_singleton.mp hterminator
    exact (Text.numeral_toDigits 0).isWord

/-- The terminator is the first word of a written clause that is no literal of it. -/
theorem tokens_clauseWords :
    Clause.tokens ([' '].intercalate c.textWords) = c.literals.map fun l => l.text.toList := by
  have literals : ∀ token ∈ c.literals.map (fun l => l.text.toList),
      (!Clause.isTerminator token) = true := by
    intro token htoken
    obtain ⟨l, hl, rfl⟩ := List.mem_map.mp htoken
    obtain ⟨v, hv⟩ := numbered l hl
    rw [hv.isLiteral_text.isTerminator_eq_false]
    rfl
  rw [Clause.tokens, Text.words_intercalate (isWord_of_mem_clauseWords numbered), Clause.textWords,
    List.takeWhile_append_of_pos literals]
  exact List.append_nil _

/-- A written clause opens with its first literal and hence like a clause line. -/
theorem isClauseLine_clauseWords : IsClauseLine ([' '].intercalate c.textWords) := by
  obtain ⟨v, hv⟩ := numbered c.first c.first_mem
  obtain ⟨first, rest, htext, hfirst⟩ := hv.isLiteral_text.exists_first
  have hwords : c.textWords = c.first.text.toList ::
      (c.literals.tail.map (fun l => l.text.toList) ++ [['0']]) := by
    change _ = (c.first :: c.literals.tail).map (fun l => l.text.toList) ++ [['0']]
    rw [Clause.first, List.cons_head_tail, Clause.textWords]
  have hhead : ([' '].intercalate c.textWords).head? = some first := by
    rw [hwords, Text.head?_intercalate hv.isLiteral_text.isWord, htext]
    rfl
  obtain ⟨more, hline⟩ := List.head?_eq_some_iff.mp hhead
  refine ⟨first, more, hline, ?_⟩
  rcases hfirst with rfl | hdigit
  · decide
  · -- None of the three letters that mark other lines is a digit.
    refine ⟨?_, ?_, ?_⟩ <;> rintro rfl <;> exact absurd hdigit (by decide)

/-- A written clause has the form of a clause line. -/
theorem denotes_clauseWords : Denotes ([' '].intercalate c.textWords) (.clause c) := by
  have words := tokens_eq_iff.mp (tokens_clauseWords numbered)
  exact .clause (isClauseLine_clauseWords numbered) words (Literal.forall₂_isLiteral_text numbered)

end Clause

theorem isWord_of_mem_headerWords (p : Problem) : ∀ word ∈ p.headerWords, Text.IsWord word := by
  have letters : ∀ c ∈ ['p', 'c', 'n', 'f'], ¬ Text.IsSpace c := by
    simp only [List.forall_mem_cons]
    exact ⟨by decide, by decide, by decide, by decide, by simp⟩
  have mark : Text.IsWord ['p'] := ⟨List.cons_ne_nil _ _,
    fun c hc => letters c (List.mem_append_left ['c', 'n', 'f'] hc)⟩
  have format : Text.IsWord ['c', 'n', 'f'] :=
    ⟨List.cons_ne_nil _ _, fun c hc => letters c (List.mem_cons_of_mem 'p' hc)⟩
  simp only [Problem.headerWords, List.forall_mem_cons]
  exact ⟨mark, format, (Text.numeral_toDigits _).isWord, (Text.numeral_toDigits _).isWord, by simp⟩

/-- The written counts have the form of a problem line. -/
theorem denotes_headerWords {p : Problem} (fits : p.variableCount ≤ Problem.symbolCapacity)
    (clauseBound : p.clauseCount < Text.wordBound) :
    Denotes ([' '].intercalate p.headerWords) (.header ⟨p.variableCount, p.clauseCount⟩) := by
  have fields := Text.words_intercalate (isWord_of_mem_headerWords p)
  rw [Text.words_eq_iff_madeOf] at fields
  rw [Problem.headerWords, List.intercalate_cons_cons] at fields ⊢
  have variableBound : p.variableCount < Text.wordBound := Nat.lt_of_le_of_lt fits (by decide)
  apply Denotes.problem
  exact ⟨_, _, _, _, fields, .plain (Text.numeral_toDigits _) variableBound,
    .plain (Text.numeral_toDigits _) clauseBound⟩

/-! ## Problems that can be written -/

/-- The symbols are the numbers up to a count and fit in a list, the clauses are counted by a
machine word and refer to variables that a text can name. -/
structure Writable (p : Problem) : Prop where
  symbols : p.symbols = Problem.numbers p.variableCount
  fits : p.variableCount ≤ Problem.symbolCapacity
  clauseBound : p.clauseCount < Text.wordBound
  numbered : Cnf.Numbered p.clauses

section Writable

variable {p : Problem}

theorem isWord_of_mem_textWords (numbered : Cnf.Numbered p.clauses) :
    ∀ line ∈ p.textWords, ∀ word ∈ line, Text.IsWord word := by
  rw [Problem.textWords, List.forall_mem_cons]
  refine ⟨isWord_of_mem_headerWords p, ?_⟩
  intro line hline
  obtain ⟨c, hc, rfl⟩ := List.mem_map.mp hline
  exact isWord_of_mem_clauseWords fun l hl => numbered l (Cnf.mem_literals.mpr ⟨c, hc, hl⟩)

/-- The contents of the written form: the counts, then the clauses. -/
def contentsOf (p : Problem) : List Line :=
  .header ⟨p.variableCount, p.clauseCount⟩ :: p.clauses.map .clause

theorem denotes_textWords (h : Writable p) :
    List.Forall₂ Denotes (p.textWords.map [' '].intercalate) (contentsOf p) := by
  apply List.Forall₂.cons (denotes_headerWords h.fits h.clauseBound)
  rw [List.map_map, List.forall₂_map_left_iff, List.forall₂_map_right_iff, List.forall₂_same]
  intro c hc
  exact denotes_clauseWords fun l hl => h.numbered l (Cnf.mem_literals.mpr ⟨c, hc, hl⟩)

/-- Every line of the written form is data. -/
theorem dataLines_text (h : Writable p) :
    dataLines p.text = p.textWords.map [' '].intercalate := by
  have hwords := isWord_of_mem_textWords h.numbered
  have unbroken : ∀ line ∈ p.textWords.map [' '].intercalate, ∀ c ∈ line, (c == '\n') = false := by
    intro line hline c hc
    obtain ⟨words, hmem, rfl⟩ := List.mem_map.mp hline
    rw [beq_eq_false_iff_ne]
    rintro rfl
    -- A line feed is blank, so no word contains one.
    rcases Text.mem_intercalate hc with hblank | ⟨word, hword, hbreak⟩
    · cases hblank
    · exact (hwords words hmem word hword).unbroken '\n' hbreak (by decide)
  have trimmed : ∀ line ∈ p.textWords.map [' '].intercalate, Text.trim line = line := by
    intro line hline
    obtain ⟨words, hmem, rfl⟩ := List.mem_map.mp hline
    exact Text.trim_intercalate (hwords words hmem)
  rw [dataLines, Problem.toList_text, Text.pieces_flatMap rfl unbroken,
    dataOf_eq_self trimmed (denotes_textWords h)]

theorem clausesOf_contentsOf : clausesOf (contentsOf p) = p.clauses := by
  change (p.clauses.map Line.clause).filterMap Line.clause? = p.clauses
  rw [List.filterMap_map]
  exact List.filterMap_some

theorem lastHeader?_contentsOf :
    lastHeader? (contentsOf p) = some ⟨p.variableCount, p.clauseCount⟩ := by
  have noHeader : (p.clauses.map Line.clause).filterMap Line.header? = [] := by
    rw [List.filterMap_map]
    exact List.filterMap_eq_nil_iff.mpr fun _ _ => rfl
  rw [lastHeader?, contentsOf, List.filterMap_cons, Line.header?, noHeader]
  rfl

/-- A written problem reads back, and its problem line has the right counts. -/
theorem read_text (h : Writable p) :
    read p.text = ⟨.ok (.ok p), [.parsed p.clauseCount p.variableCount]⟩ := by
  have lines : List.Forall₂ Denotes (dataLines p.text) (contentsOf p) := by
    rw [dataLines_text h]
    exact denotes_textWords h
  have header := lastHeader?_contentsOf (p := p)
  have count : (Draft.ofLines (contentsOf p)).variableCount = p.variableCount :=
    (variableCount_iff lines).mp (.declared header rfl)
  have clauses : (Draft.ofLines (contentsOf p)).clauses.toList = p.clauses := by
    rw [Draft.clauses_ofLines, clausesOf_contentsOf]
  have size : (Draft.ofLines (contentsOf p)).clauses.size = p.clauseCount := by
    rw [← Array.length_toList, clauses, Problem.clauseCount]
  have made : Problem.ofVariables p.clauses p.variableCount = .ok (.ok p) :=
    Problem.ofVariables_eq_ok_iff.mpr ⟨h.fits, Problem.declare_eq_ok_iff.mpr ⟨rfl, h.symbols⟩⟩
  rw [read_of_lines lines, Draft.toProblem, Draft.notes, Draft.header_ofLines, header, count,
    clauses, size, made]
  simp

end Writable

/-! ## Where problems come from -/

/-- A problem that is read from a text, or declared over numbered variables for clauses that refer
to variables that a text can name. -/
inductive Obtained : Problem → Prop where
  | parsed {text : String} {p : Problem} (accepted : parse text = .ok (.ok p)) : Obtained p
  | declared {cnf : Cnf} {n : Nat} {p : Problem} (made : Problem.ofVariables cnf n = .ok (.ok p))
      (named : ∀ v, Cnf.Uses cnf v → v ≤ Literal.greatestVariable) : Obtained p

theorem Obtained.writable {p : Problem} (origin : Obtained p)
    (clauseBound : p.clauseCount < Text.wordBound) : Writable p := by
  cases origin with
  | parsed accepted =>
    obtain ⟨contents, n, reads, made⟩ := reads_of_parse accepted
    obtain ⟨hclauses, hsymbols⟩ := Problem.of_ofVariables_eq_ok made
    have count := Problem.variableCount_of_symbols hsymbols
    refine ⟨by rw [count, hsymbols], Problem.variableCount_le_symbolCapacity made, clauseBound, ?_⟩
    rw [hclauses]
    exact numbered_of_lines reads.lines
  | declared made named =>
    obtain ⟨rfl, hsymbols⟩ := Problem.of_ofVariables_eq_ok made
    have count := Problem.variableCount_of_symbols hsymbols
    refine ⟨by rw [count, hsymbols], Problem.variableCount_le_symbolCapacity made, clauseBound, ?_⟩
    intro l hl
    obtain ⟨c, hc, hlc⟩ := Cnf.mem_literals.mp hl
    have declared := p.declared c hc l hlc
    rw [hsymbols, Problem.mem_numbers] at declared
    obtain ⟨v, pos, -, symbol⟩ := declared
    exact ⟨v, symbol, pos, named v ⟨l, hl, symbol⟩⟩

/-- The written form of a problem from either source is read as that problem, with no note of a
wrong count; so writing what was read and reading it again changes nothing more. The number of
clauses is a machine word. -/
theorem read_text_of_obtained {p : Problem} (origin : Obtained p)
    (clauseBound : p.clauseCount < Text.wordBound) :
    read p.text = ⟨.ok (.ok p), [.parsed p.clauseCount p.variableCount]⟩ ∧
      (parse p.text).map (Except.map Problem.text) = .ok (.ok p.text) := by
  have reading := read_text (origin.writable clauseBound)
  refine ⟨reading, ?_⟩
  rw [parse, reading]
  rfl

/-- A clause that repeats a literal, over more variables than it uses. -/
def repetitive : Problem where
  clauses := [⟨[⟨"2", false⟩, ⟨"1", true⟩, ⟨"2", false⟩], by decide⟩]
  symbols := ["1", "2", "3"]
  distinct := by decide
  declared := by decide

/-- The repeated literal and the unused variable are kept. -/
theorem read_text_of_obtained_repetitive :
    Obtained repetitive ∧ repetitive.clauseCount < Text.wordBound ∧
      repetitive.text = "p cnf 3 1\n-2 1 -2 0\n" ∧
      read "p cnf 3 1\n-2 1 -2 0\n" = ⟨.ok (.ok repetitive), [.parsed 1 3]⟩ := by
  have made : Problem.ofVariables repetitive.clauses 3 = .ok (.ok repetitive) :=
    Problem.ofVariables_eq_ok_iff.mpr ⟨by decide, Problem.declare_eq_ok_iff.mpr ⟨rfl, by decide⟩⟩
  have named : ∀ v, Cnf.Uses repetitive.clauses v → v ≤ Literal.greatestVariable := by
    rintro v ⟨l, hl, symbol⟩
    have few : ∀ k ∈ Cnf.literals repetitive.clauses,
        k.symbol = Nat.repr 1 ∨ k.symbol = Nat.repr 2 := by decide
    rcases few l hl with hone | htwo
    · rw [Text.repr_injective (symbol.symm.trans hone)]
      decide
    · rw [Text.repr_injective (symbol.symm.trans htwo)]
      decide
  have origin : Obtained repetitive := .declared made named
  have clauseBound : repetitive.clauseCount < Text.wordBound := by decide
  have written : repetitive.text = "p cnf 3 1\n-2 1 -2 0\n" := by decide
  have reading := (read_text_of_obtained origin clauseBound).1
  rw [written] at reading
  exact ⟨origin, clauseBound, written, reading⟩

end Dimacs

end CnfSearch

import CnfSearch.Dimacs.Reader
import CnfSearch.Proofs.Formula.Tokens
import CnfSearch.Proofs.Text.Layout

set_option autoImplicit false

/-!
# The grammar of data lines

The data of a text are its trimmed lines before the first one that opens with `%` (`Data`, computed
as `dataLines`). `Denotes` lists the forms of such a line with what each contributes, `Offends` the
ways to have none of them, each with its error; a line has one or the other (`denotes_or_offends`).
Lines, words and the end of a clause are those of the layout of the text, not what the reader cuts
out. The reader follows these relations line by line (`Line.read_of_denotes`,
`Line.read_of_offends`) and hence on a whole text: `scan_of_denotes`, `scan_of_offends`.
-/

namespace CnfSearch.Dimacs

/-! ## Forms of a line -/

/-- The trimmed lines of a text before the first one that opens with `%`. -/
def Data (text : String) (data : List (List Char)) : Prop :=
  ∃ lines cores, Text.Lines text.toList lines ∧ List.Forall₂ Text.Core lines cores ∧
    Text.UpTo (fun line => line.head? = some '%') cores data

/-- Whether a trimmed line does not end the data. -/
def isData (line : List Char) : Bool := line.head? != some '%'

/-- The trimmed lines before the first one that ends the data. -/
def dataOf (lines : List (List Char)) : List (List Char) :=
  (lines.map Text.trim).takeWhile isData

/-- The data of a text. -/
def dataLines (text : String) : List (List Char) :=
  dataOf (Text.pieces (fun c => c == '\n') text.toList)

/-- The data that are computed are those of the text, and no others. -/
theorem dataLines_eq_iff {text : String} {data : List (List Char)} :
    dataLines text = data ↔ Data text data := by
  have decides : ∀ line : List Char, isData line = true ↔ ¬ line.head? = some '%' := by
    intro line
    rw [isData, bne_iff_ne]
  have cores : ∀ lines : List (List Char), List.Forall₂ Text.Core lines (lines.map Text.trim) := by
    intro lines
    rw [List.forall₂_map_right_iff, List.forall₂_same]
    exact fun line _ => Text.trim_eq_iff_core.mp rfl
  rw [dataLines, dataOf, Text.takeWhile_eq_iff_upTo decides]
  constructor
  · intro upTo
    exact ⟨_, _, Text.pieces_eq_iff_lines.mp rfl, cores _, upTo⟩
  · rintro ⟨lines, found, cut, trimmed, upTo⟩
    rw [Text.pieces_eq_iff_lines.mpr cut]
    have same : lines.map Text.trim = found := by
      rw [← List.forall₂_eq_eq_eq, List.forall₂_map_left_iff]
      exact trimmed.imp fun line core h => Text.trim_eq_iff_core.mpr h
    rwa [same]

/-- Four words, of which the last two count variables and clauses. -/
def Declares (line : List Char) (counts : Header) : Prop :=
  ∃ first second third fourth, Text.MadeOf line [first, second, third, fourth] ∧
    Text.Count Text.wordBound third counts.variableCount ∧
      Text.Count Text.wordBound fourth counts.clauseCount

/-- A trimmed line that is neither empty nor opens as a comment, a problem line or the end. -/
def IsClauseLine (line : List Char) : Prop :=
  ∃ first rest, line = first :: rest ∧ first ≠ 'c' ∧ first ≠ 'p' ∧ first ≠ '%'

/-- The words of a line before the first one that is a zero, with or without a minus sign. -/
def Entries (line : List Char) (entries : List (List Char)) : Prop :=
  ∃ words, Text.MadeOf line words ∧
    Text.UpTo (fun word => word = ['0'] ∨ word = ['-', '0']) words entries

/-- The tokens that the reader of clauses takes are these words, and no others. -/
theorem tokens_eq_iff {line : List Char} {entries : List (List Char)} :
    Clause.tokens line = entries ↔ Entries line entries := by
  have decides : ∀ word : List Char, (!Clause.isTerminator word) = true ↔
      ¬ (word = ['0'] ∨ word = ['-', '0']) := by
    intro word
    rw [Clause.isTerminator, Bool.not_eq_true', Bool.or_eq_false_iff, not_or, beq_eq_false_iff_ne,
      beq_eq_false_iff_ne]
  rw [Clause.tokens, Text.takeWhile_eq_iff_upTo decides]
  constructor
  · intro upTo
    exact ⟨_, Text.words_eq_iff_madeOf.mp rfl, upTo⟩
  · rintro ⟨words, madeOf, upTo⟩
    rwa [Text.words_eq_iff_madeOf.mpr madeOf]

/-- What a trimmed line contributes. -/
inductive Denotes : List Char → Line → Prop where
  | empty : Denotes [] .nothing
  | comment (rest : List Char) : Denotes ('c' :: rest) .nothing
  | problem {rest : List Char} {counts : Header} (declares : Declares ('p' :: rest) counts) :
      Denotes ('p' :: rest) (.header counts)
  | clause {line : List Char} {entries : List (List Char)} {c : Clause} (kind : IsClauseLine line)
      (words : Entries line entries) (literals : List.Forall₂ IsLiteral entries c.literals) :
      Denotes line (.clause c)

/-- What is wrong with a trimmed line: the counts of a problem line, the first word of a clause line
that is no literal, or that a clause line has no word for one. -/
inductive Offends : List Char → LoadError → Prop where
  | problem {rest : List Char} (malformed : ∀ counts, ¬ Declares ('p' :: rest) counts) :
      Offends ('p' :: rest) (.header (String.ofList ('p' :: rest)))
  | token {line token : List Char} {before after : List (List Char)} (kind : IsClauseLine line)
      (words : Entries line (before ++ token :: after))
      (good : ∀ t ∈ before, ∃ l, IsLiteral t l) (bad : ∀ l, ¬ IsLiteral token l) :
      Offends line (.clause (.invalidLiteral (String.ofList token)))
  | emptyClause {line : List Char} (kind : IsClauseLine line) (none : Entries line []) :
      Offends line (.clause .emptyClause)

/-- A clause line that is read as a clause has its form. -/
theorem denotes_clause_iff {line : List Char} {c : Clause} (kind : IsClauseLine line) :
    Denotes line (.clause c) ↔ Clause.parse line = .ok c := by
  rw [Clause.parse_eq_ok_iff]
  constructor
  · intro h
    cases h with
    | clause _ words literals => rwa [tokens_eq_iff.mpr words]
  · exact .clause kind (tokens_eq_iff.mp rfl)

theorem Header.read?_eq_some_iff {line : List Char} {counts : Header} :
    Header.read? line = some counts ↔ Declares line counts := by
  constructor
  · intro h
    rw [Header.read?] at h
    split at h
    next first second third fourth fields =>
      rw [Text.words_eq_iff_madeOf] at fields
      simp only [Option.bind_eq_bind, Option.bind_eq_some_iff, Text.below?_eq_some_iff] at h
      obtain ⟨n, hthird, m, hfourth, h⟩ := h
      cases h
      exact ⟨first, second, third, fourth, fields, hthird, hfourth⟩
    next => cases h
  · rintro ⟨first, second, third, fourth, fields, hthird, hfourth⟩
    rw [← Text.below?_eq_some_iff] at hthird hfourth
    rw [← Text.words_eq_iff_madeOf] at fields
    simp only [Header.read?, fields, hthird, hfourth]
    rfl

/-- A line that has a form does not end the data. -/
theorem isData_of_denotes {line : List Char} {content : Line} (h : Denotes line content) :
    isData line = true := by
  cases h with
  | empty => rfl
  | comment => rfl
  | problem => rfl
  | clause kind =>
    obtain ⟨first, rest, rfl, -, -, hstop⟩ := kind
    simpa [isData] using hstop

/-- A problem line whose counts cannot be read offends. -/
theorem offends_of_header {rest : List Char} (unread : Header.read? ('p' :: rest) = none) :
    Offends ('p' :: rest) (.header (String.ofList ('p' :: rest))) := by
  refine .problem fun counts declares => ?_
  rw [Header.read?_eq_some_iff.mpr declares] at unread
  cases unread

/-- A line of the data has a form or offends. -/
theorem denotes_or_offends {line : List Char} (data : isData line = true) :
    (∃ content, Denotes line content) ∨ ∃ e, Offends line e := by
  -- On a clause line the reader itself tells which of the two it is.
  have clauseLine : IsClauseLine line →
      (∃ content, Denotes line content) ∨ ∃ e, Offends line e := by
    intro kind
    cases hread : Clause.parse line with
    | ok c => exact .inl ⟨_, (denotes_clause_iff kind).mpr hread⟩
    | error cause =>
      rcases Clause.parse_eq_error_iff.mp hread with
        ⟨before, token, after, split, good, bad, -⟩ | ⟨none, -⟩
      · exact .inr ⟨_, .token kind (tokens_eq_iff.mp split) good bad⟩
      · exact .inr ⟨_, .emptyClause kind (tokens_eq_iff.mp none)⟩
  cases line with
  | nil => exact .inl ⟨_, .empty⟩
  | cons first rest =>
    by_cases hc : first = 'c'
    · subst hc
      exact .inl ⟨_, .comment rest⟩
    by_cases hp : first = 'p'
    · subst hp
      by_cases declared : ∃ counts, Declares ('p' :: rest) counts
      · obtain ⟨counts, declares⟩ := declared
        exact .inl ⟨_, .problem declares⟩
      · exact .inr ⟨_, .problem fun counts declares => declared ⟨counts, declares⟩⟩
    apply clauseLine
    refine ⟨first, rest, rfl, hc, hp, ?_⟩
    rintro rfl
    cases data

/-- Either all lines have a form, or one is the first that offends. -/
theorem forall_denotes_or_offends (lines : List (List Char)) :
    (∃ contents, List.Forall₂ Denotes (dataOf lines) contents) ∨
      ∃ before line after e, dataOf lines = before ++ line :: after ∧
        (∀ l ∈ before, ∃ content, Denotes l content) ∧ Offends line e := by
  have data : ∀ line ∈ dataOf lines, isData line = true := fun _ => List.mem_takeWhile_imp
  generalize dataOf lines = kept at data ⊢
  -- Whether the first line offends decides before the rest is looked at.
  induction kept with
  | nil => exact .inl ⟨[], .nil⟩
  | cons line rest ih =>
    rw [List.forall_mem_cons] at data
    rcases denotes_or_offends data.1 with ⟨content, denotes⟩ | ⟨e, offends⟩
    · rcases ih data.2 with ⟨contents, later⟩ | ⟨before, bad, after, e, split, good, offends⟩
      · exact .inl ⟨content :: contents, .cons denotes later⟩
      · refine .inr ⟨line :: before, bad, after, e, by rw [split, List.cons_append], ?_, offends⟩
        rw [List.forall_mem_cons]
        exact ⟨⟨content, denotes⟩, good⟩
    · exact .inr ⟨[], line, rest, e, rfl, by simp, offends⟩

/-! ## The reader on one line -/

theorem Line.read_of_clauseLine {line : List Char} (kind : IsClauseLine (Text.trim line)) :
    Line.read line = match Clause.parse (Text.trim line) with
      | .ok c => .ok (.clause c)
      | .error cause => .error (.clause cause) := by
  obtain ⟨first, rest, htrim, hc, hp, hstop⟩ := kind
  rw [Line.read, htrim]
  split
  next h => cases h
  next h => cases h; exact absurd rfl hc
  next h => cases h; exact absurd rfl hstop
  next h => cases h; exact absurd rfl hp
  next h => cases h; rfl

theorem Line.read_of_denotes {line : List Char} {content : Line}
    (h : Denotes (Text.trim line) content) :
    Line.read line = .ok content := by
  generalize htrim : Text.trim line = trimmed at h
  cases h with
  | empty => simp only [Line.read, htrim]
  | comment rest => simp only [Line.read, htrim]
  | problem declares => simp only [Line.read, htrim, Header.read?_eq_some_iff.mpr declares]
  | clause kind words literals =>
    subst htrim
    rw [Line.read_of_clauseLine kind, (denotes_clause_iff kind).mp (.clause kind words literals)]

theorem Line.read_of_offends {line : List Char} {e : LoadError} (h : Offends (Text.trim line) e) :
    Line.read line = .error e := by
  generalize htrim : Text.trim line = trimmed at h
  cases h with
  | @problem rest malformed =>
    have unread : Header.read? ('p' :: rest) = none := by
      rw [Option.eq_none_iff_forall_ne_some]
      intro counts hread
      exact malformed counts (Header.read?_eq_some_iff.mp hread)
    simp only [Line.read, htrim, unread]
  | token kind words good bad =>
    subst htrim
    rw [Line.read_of_clauseLine kind,
      Clause.parse_eq_error_iff.mpr (.inl ⟨_, _, _, tokens_eq_iff.mpr words, good, bad, rfl⟩)]
  | emptyClause kind none =>
    subst htrim
    rw [Line.read_of_clauseLine kind,
      Clause.parse_eq_error_iff.mpr (.inr ⟨tokens_eq_iff.mpr none, rfl⟩)]

theorem Line.read_of_end {line : List Char} (h : isData (Text.trim line) = false) :
    Line.read line = .ok .stop := by
  rw [isData, bne_eq_false_iff_eq, List.head?_eq_some_iff] at h
  obtain ⟨rest, htrim⟩ := h
  simp only [Line.read, htrim]

/-! ## The reader on many lines -/

/-- What a line adds to a draft. -/
def Draft.extend (d : Draft) : Line → Draft
  | .header header => { d with header := some header }
  | .clause clause => { d with clauses := d.clauses.push clause }
  | .nothing => d
  | .stop => d

theorem scan_cons_of_denotes {line : List Char} {content : Line} (d : Draft)
    (rest : List (Option (List Char))) (h : Denotes (Text.trim line) content) :
    scan d (some line :: rest) = scan (d.extend content) rest := by
  rw [scan, Line.read_of_denotes h]
  generalize Text.trim line = trimmed at h
  cases h <;> rfl

@[simp] theorem dataOf_nil : dataOf [] = [] := rfl

theorem dataOf_cons (line : List Char) (rest : List (List Char)) :
    dataOf (line :: rest) =
      if isData (Text.trim line) then Text.trim line :: dataOf rest else [] := by
  rw [dataOf, List.map_cons, List.takeWhile_cons]
  rfl

/-- Lines without outer blanks that have a form are all data. -/
theorem dataOf_eq_self {lines : List (List Char)} {contents : List Line}
    (trimmed : ∀ line ∈ lines, Text.trim line = line) (h : List.Forall₂ Denotes lines contents) :
    dataOf lines = lines := by
  induction h with
  | nil => rfl
  | cons denotes _ ih =>
    rw [List.forall_mem_cons] at trimmed
    rw [dataOf_cons, trimmed.1, if_pos (isData_of_denotes denotes), ih trimmed.2]

/-- Lines that have a form are read into the draft one after another. -/
theorem scan_of_denotes {lines : List (List Char)} {contents : List Line}
    (h : List.Forall₂ Denotes (dataOf lines) contents) (d : Draft) :
    scan d (lines.map some) = .ok (contents.foldl Draft.extend d) := by
  induction lines generalizing contents d with
  | nil =>
    rw [dataOf_nil] at h
    cases h
    rfl
  | cons line rest ih =>
    rw [dataOf_cons] at h
    split at h
    next data =>
      cases h with
      | cons denotes later =>
        rw [List.map_cons, scan_cons_of_denotes d _ denotes, ih later]
        rfl
    next stop =>
      -- The data end here, so nothing is left to contribute.
      cases h
      rw [List.map_cons, scan, Line.read_of_end (Bool.eq_false_iff.mpr stop)]
      rfl

/-- The first line that offends ends the reading with its error. -/
theorem scan_of_offends {lines : List (List Char)} {before after : List (List Char)}
    {line : List Char} {e : LoadError} (split : dataOf lines = before ++ line :: after)
    (good : ∀ l ∈ before, ∃ content, Denotes l content) (offends : Offends line e) (d : Draft) :
    scan d (lines.map some) = .error e := by
  induction lines generalizing before d with
  | nil => simp at split
  | cons first rest ih =>
    rw [dataOf_cons] at split
    split at split
    next data =>
      cases before with
      | nil =>
        obtain ⟨rfl, -⟩ := List.cons.inj split
        rw [List.map_cons, scan, Line.read_of_offends offends]
      | cons _ before =>
        obtain ⟨rfl, hrest⟩ := List.cons.inj split
        rw [List.forall_mem_cons] at good
        obtain ⟨⟨content, denotes⟩, good⟩ := good
        rw [List.map_cons, scan_cons_of_denotes d _ denotes]
        exact ih hrest good _
    next => simp at split

end CnfSearch.Dimacs

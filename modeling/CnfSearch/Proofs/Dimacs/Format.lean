import CnfSearch.Proofs.Dimacs.Grammar
import CnfSearch.Proofs.Problem.Numbered

set_option autoImplicit false

/-!
# The accepted texts

What a text says is told by its lines (`Reads`): the clauses are those of its clause lines, and the
number of variables is the one of its last problem line or else the greatest variable used. A text
is accepted exactly if all its lines have a form, the variables fit in a list, and no variable used
exceeds their number. If they fit in no list, reading it is a fault; otherwise it has one defect
(`Defect`), and the reader names that: `parse_iff_format`.
-/

namespace CnfSearch.Dimacs

/-! ## What lines say together -/

/-- The counts of a problem line. -/
def Line.header? : Line → Option Header
  | .header counts => some counts
  | _ => none

/-- The clause of a clause line. -/
def Line.clause? : Line → Option Clause
  | .clause c => some c
  | _ => none

/-- The counts of the last problem line. -/
def lastHeader? (contents : List Line) : Option Header := (contents.filterMap Line.header?).getLast?

/-- The clauses in the order of their lines. -/
def clausesOf (contents : List Line) : Cnf := contents.filterMap Line.clause?

/-- The greatest variable used, or zero if none is. -/
structure IsGreatestUsed (cnf : Cnf) (n : Nat) : Prop where
  bound : ∀ v, Cnf.Uses cnf v → v ≤ n
  attained : n = 0 ∨ Cnf.Uses cnf n

/-- The number of variables: the one that the last problem line declares, or else the greatest
variable used. -/
inductive VariableCount (contents : List Line) (n : Nat) : Prop where
  | declared {header : Header} (last : lastHeader? contents = some header)
      (count : header.variableCount = n)
  | used (undeclared : lastHeader? contents = none)
      (greatest : IsGreatestUsed (clausesOf contents) n)

/-- What the lines of a text contribute and the number of variables that follows from it. -/
structure Reads (text : String) (contents : List Line) (n : Nat) : Prop where
  data : ∃ data, Data text data ∧ List.Forall₂ Denotes data contents
  count : VariableCount contents n

/-- What is wrong with a text: its first line that offends or, if none does and the variables fit in
a list, the first literal whose variable exceeds their number. -/
inductive Defect (text : String) : LoadError → Prop where
  | line {before after : List (List Char)} {line : List Char} {e : LoadError}
      (data : Data text (before ++ line :: after))
      (good : ∀ l ∈ before, ∃ content, Denotes l content) (offends : Offends line e) : Defect text e
  | undeclared {contents : List Line} {n v : Nat} {before after : List Literal} {l : Literal}
      (reads : Reads text contents n) (fits : n ≤ Problem.symbolCapacity)
      (split : Cnf.literals (clausesOf contents) = before ++ l :: after)
      (within : ∀ k ∈ before, ∀ w, k.symbol = w.repr → w ≤ n) (symbol : l.symbol = v.repr)
      (beyond : n < v) : Defect text (.declaration (.undeclared l.symbol))

/-- The data of a text that is read, as they are computed, contribute what it says. -/
theorem Reads.lines {text : String} {contents : List Line} {n : Nat}
    (reads : Reads text contents n) : List.Forall₂ Denotes (dataLines text) contents := by
  obtain ⟨data, hdata, denotes⟩ := reads.data
  rwa [dataLines_eq_iff.mpr hdata]

theorem reads_of_lines {text : String} {contents : List Line} {n : Nat}
    (lines : List.Forall₂ Denotes (dataLines text) contents) (count : VariableCount contents n) :
    Reads text contents n :=
  ⟨⟨_, dataLines_eq_iff.mp rfl, lines⟩, count⟩

/-! ## Drafts -/

/-- The numbers that the symbols of clauses spell. -/
def spelled (cnf : Cnf) : List Nat :=
  (Cnf.literals cnf).filterMap fun l => Text.natural? l.symbol.toList

theorem mem_spelled_iff {cnf : Cnf} {v : Nat} (numbered : Cnf.Numbered cnf) :
    v ∈ spelled cnf ↔ Cnf.Uses cnf v := by
  rw [spelled, List.mem_filterMap]
  constructor
  · rintro ⟨l, hl, hv⟩
    obtain ⟨w, hw⟩ := numbered l hl
    rw [hw.symbol, Text.natural?_repr, Option.some.injEq] at hv
    subst hv
    exact ⟨l, hl, hw.symbol⟩
  · rintro ⟨l, hl, symbol⟩
    exact ⟨l, hl, by rw [symbol, Text.natural?_repr]⟩

namespace Draft

theorem header_foldl_extend (contents : List Line) (d : Draft) :
    (contents.foldl extend d).header = (lastHeader? contents).or d.header := by
  induction contents generalizing d with
  | nil => rfl
  | cons content rest ih =>
    rw [List.foldl_cons, ih]
    cases content with
    | header header =>
      -- A problem line counts only if no further one follows, as in `lastHeader?`.
      have hlast : lastHeader? (.header header :: rest) =
          some ((lastHeader? rest).getD header) := by
        rw [lastHeader?, List.filterMap_cons, Line.header?, List.getLast?_cons]
        rfl
      rw [hlast]
      cases lastHeader? rest <;> rfl
    | nothing => rfl
    | stop => rfl
    | clause c => rfl

theorem clauses_foldl_extend (contents : List Line) (d : Draft) :
    (contents.foldl extend d).clauses.toList = d.clauses.toList ++ clausesOf contents := by
  induction contents generalizing d with
  | nil => simp [clausesOf]
  | cons content rest ih =>
    rw [List.foldl_cons, ih]
    cases content with
    | clause c => simp [extend, clausesOf, Line.clause?]
    | nothing => rfl
    | stop => rfl
    | header header => rfl

/-- The draft that lines make. -/
def ofLines (contents : List Line) : Draft := contents.foldl extend empty

theorem header_ofLines (contents : List Line) :
    (ofLines contents).header = lastHeader? contents := by
  rw [ofLines, header_foldl_extend, empty, Option.or_none]

theorem clauses_ofLines (contents : List Line) :
    (ofLines contents).clauses.toList = clausesOf contents := by
  rw [ofLines, clauses_foldl_extend, empty, List.nil_append]

/-- The greatest variable is computed from the numbers that the symbols spell. -/
theorem isGreatestUsed {d : Draft} (numbered : Cnf.Numbered d.clauses.toList) :
    IsGreatestUsed d.clauses.toList d.greatestVariable := by
  have greatest : (0 :: spelled d.clauses.toList).max? = some d.greatestVariable := List.max?_cons'
  obtain ⟨attained, bound⟩ := List.max?_eq_some_iff.mp greatest
  constructor
  · intro v hv
    exact bound v (List.mem_cons_of_mem 0 ((mem_spelled_iff numbered).mpr hv))
  · rcases List.mem_cons.mp attained with hzero | hmem
    · exact .inl hzero
    · exact .inr ((mem_spelled_iff numbered).mp hmem)

end Draft

theorem IsGreatestUsed.unique {cnf : Cnf} {n m : Nat} (hn : IsGreatestUsed cnf n)
    (hm : IsGreatestUsed cnf m) : n = m := by
  have le : ∀ {a b}, IsGreatestUsed cnf a → IsGreatestUsed cnf b → a ≤ b := by
    intro a b ha hb
    rcases ha.attained with rfl | used
    · exact Nat.zero_le b
    · exact hb.bound a used
  exact Nat.le_antisymm (le hn hm) (le hm hn)

/-- What lines contribute refers to its variables by numbers. -/
theorem numbered_clausesOf {contents : List Line}
    (denoted : ∀ content ∈ contents, ∃ line, Denotes line content) :
    Cnf.Numbered (clausesOf contents) := by
  intro l hl
  obtain ⟨c, hc, hlc⟩ := Cnf.mem_literals.mp hl
  obtain ⟨content, hcontent, hclause⟩ := List.mem_filterMap.mp hc
  obtain ⟨line, denotes⟩ := denoted content hcontent
  -- Only the form of a clause line contributes a clause.
  cases denotes with
  | clause kind words literals =>
    cases hclause
    exact Clause.hasVariable_of_forall₂ literals l hlc
  | empty => cases hclause
  | comment => cases hclause
  | problem => cases hclause

/-! ## The text as a whole -/

section Lines

variable {text : String} {contents : List Line}

theorem numbered_of_lines (lines : List.Forall₂ Denotes (dataLines text) contents) :
    Cnf.Numbered (clausesOf contents) := by
  apply numbered_clausesOf
  intro content hcontent
  obtain ⟨line, -, denotes⟩ := exists_of_mem_right lines content hcontent
  exact ⟨line, denotes⟩

/-- The number of variables of the draft is the one that the lines determine, and no other. -/
theorem variableCount_iff (lines : List.Forall₂ Denotes (dataLines text) contents) {n : Nat} :
    VariableCount contents n ↔ (Draft.ofLines contents).variableCount = n := by
  have greatest :
      IsGreatestUsed (clausesOf contents) (Draft.ofLines contents).greatestVariable := by
    rw [← Draft.clauses_ofLines]
    apply Draft.isGreatestUsed
    rw [Draft.clauses_ofLines]
    exact numbered_of_lines lines
  rw [Draft.variableCount, Draft.header_ofLines]
  cases hlast : lastHeader? contents with
  | some header =>
    constructor
    · intro h
      cases h with
      | declared last count =>
        rw [hlast] at last
        cases last
        exact count
      | used undeclared => rw [hlast] at undeclared; cases undeclared
    · exact .declared hlast
  | none =>
    constructor
    · intro h
      cases h with
      | declared last => rw [hlast] at last; cases last
      | used _ used => exact greatest.unique used
    · rintro rfl
      exact .used hlast greatest

/-- Lines that all have a form are read, whatever their clauses refer to. -/
theorem read_of_lines (lines : List.Forall₂ Denotes (dataLines text) contents) :
    read text = ⟨(Draft.ofLines contents).toProblem, (Draft.ofLines contents).notes⟩ := by
  rw [read, linesOf, readLines, scan_of_denotes lines .empty]
  rfl

/-- A text that can be read is what its clauses and the number of variables make. -/
theorem parse_of_reads {n : Nat} (reads : Reads text contents n) :
    parse text = match Problem.ofVariables (clausesOf contents) n with
      | .ok (.ok p) => .ok (.ok p)
      | .ok (.error cause) => .ok (.error (.declaration cause))
      | .error fault => .error fault := by
  have count := (variableCount_iff reads.lines).mp reads.count
  rcases made : Problem.ofVariables (clausesOf contents) n with fault | cause | p <;>
    simp only [parse, read_of_lines reads.lines, Draft.toProblem, Draft.clauses_ofLines, count, made]

theorem parse_eq_ok_iff_of_reads {n : Nat} {p : Problem} (reads : Reads text contents n) :
    parse text = .ok (.ok p) ↔ Problem.ofVariables (clausesOf contents) n = .ok (.ok p) := by
  rw [parse_of_reads reads]
  rcases Problem.ofVariables (clausesOf contents) n with fault | cause | q <;> simp

theorem parse_eq_error_iff_of_reads {n : Nat} {e : LoadError} (reads : Reads text contents n) :
    parse text = .ok (.error e) ↔ ∃ cause,
      Problem.ofVariables (clausesOf contents) n = .ok (.error cause) ∧ e = .declaration cause := by
  rw [parse_of_reads reads]
  rcases Problem.ofVariables (clausesOf contents) n with fault | cause | q <;> simp [eq_comm]

theorem parse_eq_fault_iff_of_reads {n : Nat} {fault : Fault} (reads : Reads text contents n) :
    parse text = .error fault ↔ Problem.symbolCapacity < n ∧ fault = .capacity := by
  rw [← Problem.ofVariables_eq_fault_iff, parse_of_reads reads]
  rcases Problem.ofVariables (clausesOf contents) n with fault | cause | q <;> simp

theorem parse_of_offends {before after : List (List Char)} {line : List Char} {e : LoadError}
    (split : dataLines text = before ++ line :: after)
    (good : ∀ l ∈ before, ∃ content, Denotes l content) (offends : Offends line e) :
    parse text = .ok (.error e) := by
  rw [parse, read, linesOf, readLines, scan_of_offends split good offends]

/-- A text can be read, or it has a first line that offends. -/
theorem exists_reads_or_offends (text : String) :
    (∃ contents n, Reads text contents n) ∨
      ∃ before line after e, dataLines text = before ++ line :: after ∧
        (∀ l ∈ before, ∃ content, Denotes l content) ∧ Offends line e := by
  rcases forall_denotes_or_offends (Text.pieces (fun c => c == '\n') text.toList) with
    ⟨contents, lines⟩ | offence
  · exact .inl ⟨contents, _, reads_of_lines lines ((variableCount_iff lines).mpr rfl)⟩
  · exact .inr offence

/-- An accepted text can be read, and its problem is made of what its lines say. -/
theorem reads_of_parse {p : Problem} (h : parse text = .ok (.ok p)) : ∃ contents n,
    Reads text contents n ∧ Problem.ofVariables (clausesOf contents) n = .ok (.ok p) := by
  rcases exists_reads_or_offends text with ⟨contents, n, reads⟩ | ⟨_, _, _, _, split, good, offends⟩
  · exact ⟨contents, n, reads, (parse_eq_ok_iff_of_reads reads).mp h⟩
  · rw [parse_of_offends split good offends] at h
    cases h

/-- The only fault of a text that can be read is a variable beyond the number of variables. -/
theorem parse_eq_error_iff_undeclared {n : Nat} {e : LoadError} (reads : Reads text contents n) :
    parse text = .ok (.error e) ↔ n ≤ Problem.symbolCapacity ∧ ∃ before l after v,
      Cnf.literals (clausesOf contents) = before ++ l :: after ∧
        (∀ k ∈ before, ∀ w, k.symbol = w.repr → w ≤ n) ∧ l.symbol = v.repr ∧ n < v ∧
          e = .declaration (.undeclared l.symbol) := by
  simp only [parse_eq_error_iff_of_reads reads,
    Problem.ofVariables_eq_error_iff (numbered_of_lines reads.lines)]
  constructor
  · rintro ⟨_, ⟨fits, before, l, after, v, split, within, symbol, beyond, rfl⟩, rfl⟩
    exact ⟨fits, before, l, after, v, split, within, symbol, beyond, rfl⟩
  · rintro ⟨fits, before, l, after, v, split, within, symbol, beyond, rfl⟩
    exact ⟨_, ⟨fits, before, l, after, v, split, within, symbol, beyond, rfl⟩, rfl⟩

end Lines

/-- Reading a text is a fault exactly if it declares more variables than fit in a list. -/
theorem parse_eq_fault_iff {text : String} {fault : Fault} :
    parse text = .error fault ↔
      fault = .capacity ∧ ∃ contents n, Reads text contents n ∧ Problem.symbolCapacity < n := by
  constructor
  · intro hfault
    rcases exists_reads_or_offends text with
      ⟨contents, n, reads⟩ | ⟨_, _, _, _, split, good, offends⟩
    · obtain ⟨exceeds, rfl⟩ := (parse_eq_fault_iff_of_reads reads).mp hfault
      exact ⟨rfl, contents, n, reads, exceeds⟩
    · rw [parse_of_offends split good offends] at hfault
      cases hfault
  · rintro ⟨rfl, contents, n, reads, exceeds⟩
    exact (parse_eq_fault_iff_of_reads reads).mpr ⟨exceeds, rfl⟩

/-- The reader accepts exactly the texts whose lines all have a form, whose variables fit in a list,
and which use no variable beyond their number; the problem consists of that many numbered variables
and the clauses of the clause lines. A text with more variables than fit in a list is a fault, even
if nothing else is wrong with it. Any other text is refused for its defect. -/
theorem parse_iff_format (text : String) :
    ((∃ p, parse text = .ok (.ok p)) ↔ ∃ contents n, Reads text contents n ∧
        n ≤ Problem.symbolCapacity ∧ ∀ v, Cnf.Uses (clausesOf contents) v → v ≤ n) ∧
      (∀ p, parse text = .ok (.ok p) → ∀ contents n, Reads text contents n →
        p.symbols = (List.range' 1 n).map Nat.repr ∧ p.clauses = clausesOf contents) ∧
      (∀ e, parse text = .ok (.error e) ↔ Defect text e) ∧
      ∀ fault, parse text = .error fault ↔
        fault = .capacity ∧ ∃ contents n, Reads text contents n ∧ Problem.symbolCapacity < n := by
  refine ⟨⟨?_, ?_⟩, ?_, fun e => ⟨?_, ?_⟩, fun fault => parse_eq_fault_iff⟩
  · rintro ⟨p, hp⟩
    obtain ⟨contents, n, reads, made⟩ := reads_of_parse hp
    have within := (Problem.exists_ofVariables_iff (numbered_of_lines reads.lines)).mp ⟨p, made⟩
    exact ⟨contents, n, reads, within⟩
  · rintro ⟨contents, n, reads, within⟩
    obtain ⟨p, made⟩ := (Problem.exists_ofVariables_iff (numbered_of_lines reads.lines)).mpr within
    exact ⟨p, (parse_eq_ok_iff_of_reads reads).mpr made⟩
  · intro p hp contents n reads
    rw [parse_eq_ok_iff_of_reads reads] at hp
    exact (Problem.of_ofVariables_eq_ok hp).symm
  · intro he
    rcases exists_reads_or_offends text with
      ⟨contents, n, reads⟩ | ⟨_, _, _, _, split, good, offends⟩
    · obtain ⟨fits, before, l, after, v, split, within, symbol, beyond, rfl⟩ :=
        (parse_eq_error_iff_undeclared reads).mp he
      exact .undeclared reads fits split within symbol beyond
    · rw [parse_of_offends split good offends] at he
      cases he
      exact .line (dataLines_eq_iff.mp split) good offends
  · intro defect
    cases defect with
    | line data good offends => exact parse_of_offends (dataLines_eq_iff.mpr data) good offends
    | undeclared reads fits split within symbol beyond =>
      exact (parse_eq_error_iff_undeclared reads).mpr
        ⟨fits, _, _, _, _, split, within, symbol, beyond, rfl⟩

/-- A text that consists of a problem line declares its variables and uses none. -/
theorem reads_of_header {text : String} {counts : Header} {rest : List Char}
    (lines : dataLines text = ['p' :: rest]) (read : Header.read? ('p' :: rest) = some counts) :
    Reads text [.header counts] counts.variableCount := by
  have last : lastHeader? [.header counts] = some counts := rfl
  refine reads_of_lines ?_ (.declared last rfl)
  rw [lines]
  exact .cons (.problem (Header.read?_eq_some_iff.mp read)) .nil

/-- A problem line that declares the least number of variables that do not fit in a list. -/
def excessive : String := "p cnf 576460752303423488 0"

theorem reads_excessive :
    Reads excessive [.header ⟨576460752303423488, 0⟩] 576460752303423488 := by
  have lines : dataLines excessive = ['p' :: " cnf 576460752303423488 0".toList] := by decide
  exact reads_of_header lines (by decide)

theorem parse_excessive : parse excessive = .error .capacity :=
  (parse_eq_fault_iff_of_reads reads_excessive).mpr ⟨by decide, rfl⟩

/-- All lines of this text have a form and no variable is used, and yet it is not accepted. -/
theorem excessive_not_accepted :
    Reads excessive [.header ⟨576460752303423488, 0⟩] 576460752303423488 ∧
      (∀ v, ¬ Cnf.Uses (clausesOf [.header ⟨576460752303423488, 0⟩]) v) ∧
      ¬ ∃ p, parse excessive = .ok (.ok p) := by
  refine ⟨reads_excessive, ?_, ?_⟩
  · rintro v ⟨l, hl, -⟩
    cases hl
  · rintro ⟨p, hp⟩
    rw [parse_excessive] at hp
    cases hp

/-- A text with a line of every kind, and with a line behind the end of its data. -/
def mixed : String := "c x\n\n\tp cnf +4294967295 7\r\n 1 -02 -0 x\n4294967295\n % \n?"

/-- What the lines of this text contribute. -/
def mixedContents : List Line :=
  [.nothing, .nothing, .header ⟨4294967295, 7⟩,
    .clause ⟨[⟨"1", true⟩, ⟨"2", false⟩], List.cons_ne_nil _ _⟩,
    .clause ⟨[⟨"4294967295", true⟩], List.cons_ne_nil _ _⟩]

theorem reads_mixed : Reads mixed mixedContents 4294967295 := by
  have lines : dataLines mixed = ["c x".toList, [], "p cnf +4294967295 7".toList,
      "1 -02 -0 x".toList, "4294967295".toList] := by decide
  have last : lastHeader? mixedContents = some ⟨4294967295, 7⟩ := rfl
  refine reads_of_lines ?_ (.declared last rfl)
  rw [lines]
  refine .cons (.comment [' ', 'x']) (.cons .empty (.cons ?_ (.cons ?_ (.cons ?_ .nil))))
  · exact .problem (Header.read?_eq_some_iff.mp (by decide))
  · exact (denotes_clause_iff ⟨'1', _, rfl, by decide, by decide, by decide⟩).mpr (by decide)
  · exact (denotes_clause_iff ⟨'4', _, rfl, by decide, by decide, by decide⟩).mpr (by decide)

/-- A line that names a variable beyond the greatest one behind a good literal. -/
theorem offends_beyondGreatest :
    Offends "1 4294967296 0".toList (.clause (.invalidLiteral "4294967296")) := by
  have words : Entries "1 4294967296 0".toList (["1".toList] ++ "4294967296".toList :: []) :=
    tokens_eq_iff.mp (by decide)
  have good : ∀ t ∈ ["1".toList], ∃ l, IsLiteral t l := by
    rw [List.forall_mem_singleton]
    exact ⟨⟨"1", true⟩, Literal.read?_eq_some_iff.mp (by decide)⟩
  have bad : ∀ l, ¬ IsLiteral "4294967296".toList l := by
    intro l hl
    have unread : Literal.read? "4294967296".toList = none := by decide
    rw [Literal.read?_eq_some_iff.mpr hl] at unread
    cases unread
  exact .token ⟨'1', _, rfl, by decide, by decide, by decide⟩ words good bad

/-- A clause in front of a problem line that declares one of its two variables. -/
def belowUsed : String := "1 -2 0\np cnf 1 1"

/-- What the two lines of this text contribute. -/
def belowUsedContents : List Line :=
  [.clause ⟨[⟨"1", true⟩, ⟨"2", false⟩], List.cons_ne_nil _ _⟩, .header ⟨1, 1⟩]

theorem reads_belowUsed : Reads belowUsed belowUsedContents 1 := by
  have lines : dataLines belowUsed = ["1 -2 0".toList, "p cnf 1 1".toList] := by decide
  have last : lastHeader? belowUsedContents = some ⟨1, 1⟩ := rfl
  refine reads_of_lines ?_ (.declared last rfl)
  rw [lines]
  refine .cons ?_ (.cons (.problem (Header.read?_eq_some_iff.mp (by decide))) .nil)
  exact (denotes_clause_iff ⟨'1', _, rfl, by decide, by decide, by decide⟩).mpr (by decide)

/-- The text of every kind is accepted. Others are refused for a literal behind a good one, for a
count beyond the machine words and for a variable that is not declared, and the greatest count is a
fault. -/
theorem parse_iff_format_mixed :
    (Reads mixed mixedContents 4294967295 ∧ ∃ p, parse mixed = .ok (.ok p) ∧
      p.symbols = (List.range' 1 4294967295).map Nat.repr ∧ p.clauses = clausesOf mixedContents) ∧
    parse "c\n1 4294967296 0\np" = .ok (.error (.clause (.invalidLiteral "4294967296"))) ∧
    parse "p cnf 18446744073709551616 0" =
      .ok (.error (.header "p cnf 18446744073709551616 0")) ∧
    parse belowUsed = .ok (.error (.declaration (.undeclared "2"))) ∧
    parse "p cnf 18446744073709551615 0" = .error .capacity := by
  refine ⟨⟨reads_mixed, ?_⟩, ?_, ?_, ?_, ?_⟩
  · have values : ∀ l ∈ Cnf.literals (clausesOf mixedContents),
        (Text.natural? l.symbol.toList).all (fun v => decide (v ≤ 4294967295)) = true := by decide
    have used : ∀ v, Cnf.Uses (clausesOf mixedContents) v → v ≤ 4294967295 := by
      rintro v ⟨l, hl, symbol⟩
      have value := values l hl
      rw [symbol, Text.natural?_repr] at value
      exact of_decide_eq_true value
    obtain ⟨p, accepted⟩ := (parse_iff_format mixed).1.mpr
      ⟨mixedContents, 4294967295, reads_mixed, by decide, used⟩
    exact ⟨p, accepted, (parse_iff_format mixed).2.1 p accepted _ _ reads_mixed⟩
  · have data : Data "c\n1 4294967296 0\np"
        (["c".toList] ++ "1 4294967296 0".toList :: ["p".toList]) := dataLines_eq_iff.mp (by decide)
    refine ((parse_iff_format _).2.2.1 _).mpr (.line data ?_ offends_beyondGreatest)
    rw [List.forall_mem_singleton]
    exact ⟨_, .comment []⟩
  · have data : Data "p cnf 18446744073709551616 0"
        ([] ++ ('p' :: " cnf 18446744073709551616 0".toList) :: []) :=
      dataLines_eq_iff.mp (by decide)
    have unread : Header.read? ('p' :: " cnf 18446744073709551616 0".toList) = none := by decide
    exact ((parse_iff_format _).2.2.1 _).mpr (.line data (by simp) (offends_of_header unread))
  · have one : ∀ k ∈ [Literal.mk "1" true], ∀ w, k.symbol = w.repr → w ≤ 1 := by
      intro k hk w symbol
      obtain rfl := List.mem_singleton.mp hk
      have value : Nat.repr 1 = w.repr := symbol
      exact Nat.le_of_eq (Text.repr_injective value).symm
    have split : Cnf.literals (clausesOf belowUsedContents) =
        [Literal.mk "1" true] ++ Literal.mk "2" false :: [] := rfl
    have symbol : (Literal.mk "2" false).symbol = Nat.repr 2 := rfl
    exact ((parse_iff_format _).2.2.1 _).mpr
      (.undeclared reads_belowUsed (by decide) split one symbol (by decide))
  · have lines : dataLines "p cnf 18446744073709551615 0" =
        ['p' :: " cnf 18446744073709551615 0".toList] := by decide
    have read : Header.read? ('p' :: " cnf 18446744073709551615 0".toList) =
        some ⟨18446744073709551615, 0⟩ := by decide
    exact ((parse_iff_format _).2.2.2 _).mpr ⟨rfl, _, _, reads_of_header lines read, by decide⟩

end CnfSearch.Dimacs

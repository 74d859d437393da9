import CnfSearch.Proofs.Dimacs.Format
import CnfSearch.Proofs.Formula.Canonical

set_option autoImplicit false

/-!
# What a problem line declares

Numbered variables are declared by number: the symbols up to a count are the canonical numerals up
to it (`Problem.mem_numbers_iff`), so clauses over other symbols are refused whatever the count. A
text without a problem line has just as many variables as its clauses need
(`exists_parse_of_headless`). A problem line that is put among its data leaves the clauses as they
are and declares its own number (`exists_reads_of_addsLine`). Main statement:
`numbers_declare_variables`.
-/

namespace CnfSearch

/-! ## Declared numbers -/

namespace Problem

/-- The declared symbols are the canonical numerals up to the count. -/
theorem mem_numbers_iff {s : Symbol} {n : Nat} : s ∈ numbers n ↔ Text.IsNumberUpTo n s := by
  rw [mem_numbers, Text.isNumberUpTo_iff]

variable {cnf : Cnf} {n : Nat}

/-- Clauses are accepted over numbered variables if these fit in a list and all symbols are such
numerals. -/
theorem exists_ofVariables_iff_isNumberUpTo :
    (∃ p, ofVariables cnf n = .ok (.ok p)) ↔
      n ≤ symbolCapacity ∧ ∀ l ∈ Cnf.literals cnf, Text.IsNumberUpTo n l.symbol := by
  simp only [exists_ofVariables_iff_mem_numbers, mem_numbers_iff]

/-- Otherwise the first literal with another symbol is named, and no symbol is repeated. -/
theorem ofVariables_eq_error_iff_isNumberUpTo {e : DeclarationError} :
    ofVariables cnf n = .ok (.error e) ↔ n ≤ symbolCapacity ∧ ∃ before l after,
      Cnf.literals cnf = before ++ l :: after ∧ (∀ k ∈ before, Text.IsNumberUpTo n k.symbol) ∧
        ¬ Text.IsNumberUpTo n l.symbol ∧ e = .undeclared l.symbol := by
  rw [ofVariables_eq_ok_iff, declare_eq_error_iff (nodup_numbers n)]
  simp only [mem_numbers_iff]

/-- Clauses that are not accepted over numbers that fit in a list are refused because of a
symbol. -/
theorem exists_undeclared_of_not_accepted (fits : n ≤ symbolCapacity)
    (refused : ¬ ∃ p, ofVariables cnf n = .ok (.ok p)) :
    ∃ s, ofVariables cnf n = .ok (.error (.undeclared s)) := by
  have made : ofVariables cnf n = .ok (declare cnf (numbers n)) := ofVariables_of_le fits
  cases declared : declare cnf (numbers n) with
  | ok p =>
    rw [declared] at made
    exact absurd ⟨p, made⟩ refused
  | error cause =>
    rw [declared] at made
    obtain ⟨-, _, l, _, -, -, -, rfl⟩ := ofVariables_eq_error_iff_isNumberUpTo.mp made
    exact ⟨l.symbol, made⟩

/-- Numbers up to a count are not repeated. -/
theorem ofVariables_ne_repeated (cnf : Cnf) (n : Nat) (s : Symbol) :
    ofVariables cnf n ≠ .ok (.error (.repeated s)) := by
  intro refused
  obtain ⟨-, _, _, _, -, -, -, named⟩ := ofVariables_eq_error_iff_isNumberUpTo.mp refused
  cases named

end Problem

namespace Dimacs

/-! ## Texts without a problem line -/

/-- The lines of a text, as they stand. -/
def rawLines (text : String) : List (List Char) := Text.pieces (fun c => c == '\n') text.toList

/-- No line of the data opens as a problem line. -/
def Headless (text : String) : Prop := ∀ line ∈ dataLines text, line.head? ≠ some 'p'

/-- Lines that do not open as problem lines contribute no counts. -/
theorem filterMap_header?_eq_nil {lines : List (List Char)} {contents : List Line}
    (denoted : List.Forall₂ Denotes lines contents)
    (headless : ∀ line ∈ lines, line.head? ≠ some 'p') : contents.filterMap Line.header? = [] := by
  rw [List.filterMap_eq_nil_iff]
  intro content hcontent
  obtain ⟨line, hline, denotes⟩ := exists_of_mem_right denoted content hcontent
  cases denotes with
  | problem => exact absurd rfl (headless _ hline)
  | empty => rfl
  | comment => rfl
  | clause => rfl

/-- A line is refused for itself, not for what the lines declare together. -/
theorem Offends.ne_declaration {line : List Char} {e : LoadError} (h : Offends line e)
    (cause : DeclarationError) : e ≠ .declaration cause := by
  rintro rfl
  cases h

/-- The number of variables without a problem line: clauses are accepted over a count exactly if it
is not below this one and fits in a list. -/
theorem IsGreatestUsed.exists_ofVariables_iff {cnf : Cnf} {n : Nat} (h : IsGreatestUsed cnf n)
    (numbered : Cnf.Numbered cnf) {k : Nat} :
    (∃ p, Problem.ofVariables cnf k = .ok (.ok p)) ↔ n ≤ k ∧ k ≤ Problem.symbolCapacity := by
  rw [Problem.exists_ofVariables_iff numbered, and_comm]
  refine and_congr_left fun _ => ?_
  constructor
  · intro within
    rcases h.attained with rfl | used
    · exact Nat.zero_le k
    · exact within n used
  · intro le v used
    exact Nat.le_trans (h.bound v used) le

/-- The numbers up to the greatest variable that is used fit in a list. -/
theorem IsGreatestUsed.le_symbolCapacity {cnf : Cnf} {n : Nat} (h : IsGreatestUsed cnf n)
    (numbered : Cnf.Numbered cnf) : n ≤ Problem.symbolCapacity := by
  rcases h.attained with rfl | ⟨l, hl, symbol⟩
  · exact Nat.zero_le _
  · obtain ⟨v, hv⟩ := numbered l hl
    rw [hv.symbol] at symbol
    rw [← Text.repr_injective symbol]
    exact Nat.le_trans hv.le (by decide)

section Headless

variable {text : String} {contents : List Line}

/-- The number of variables of a text without a problem line is the greatest one used. -/
theorem exists_reads_of_headless (headless : Headless text)
    (lines : List.Forall₂ Denotes (dataLines text) contents) :
    ∃ n, Reads text contents n ∧ IsGreatestUsed (clausesOf contents) n := by
  have undeclared : lastHeader? contents = none := by
    rw [lastHeader?, filterMap_header?_eq_nil lines headless, List.getLast?_nil]
  have count := (variableCount_iff lines).mpr rfl
  refine ⟨_, reads_of_lines lines count, ?_⟩
  cases count with
  | declared last => rw [undeclared] at last; cases last
  | used _ greatest => exact greatest

/-- A text without a problem line whose lines all have a form is accepted, over the least number of
variables with which its clauses make a problem. -/
theorem exists_parse_of_headless (headless : Headless text)
    (lines : List.Forall₂ Denotes (dataLines text) contents) :
    ∃ p, parse text = .ok (.ok p) ∧ p.clauses = clausesOf contents ∧
      p.symbols = Problem.numbers p.variableCount ∧
        ∀ k, (∃ q, Problem.ofVariables p.clauses k = .ok (.ok q)) ↔
          p.variableCount ≤ k ∧ k ≤ Problem.symbolCapacity := by
  obtain ⟨n, reads, greatest⟩ := exists_reads_of_headless headless lines
  have numbered := numbered_of_lines lines
  have accepts : ∀ k, (∃ q, Problem.ofVariables (clausesOf contents) k = .ok (.ok q)) ↔
      n ≤ k ∧ k ≤ Problem.symbolCapacity := fun k => greatest.exists_ofVariables_iff numbered
  obtain ⟨p, made⟩ := (accepts n).mpr ⟨Nat.le_refl n, greatest.le_symbolCapacity numbered⟩
  obtain ⟨hclauses, hsymbols⟩ := Problem.of_ofVariables_eq_ok made
  have count := Problem.variableCount_of_symbols hsymbols
  refine ⟨p, (parse_eq_ok_iff_of_reads reads).mpr made, hclauses, ?_, ?_⟩
  · rw [count, hsymbols]
  · rw [count, hclauses]
    exact accepts

end Headless

/-- A text without a problem line is refused for one of its lines, if at all. -/
theorem parse_ne_declaration_of_headless {text : String} (headless : Headless text)
    (cause : DeclarationError) : parse text ≠ .ok (.error (.declaration cause)) := by
  intro refused
  rcases exists_reads_or_offends text with ⟨contents, n, reads⟩ | ⟨_, _, _, _, split, good, offends⟩
  · obtain ⟨p, accepted, -⟩ := exists_parse_of_headless headless reads.lines
    rw [accepted] at refused
    cases refused
  · rw [parse_of_offends split good offends, Except.ok.injEq, Except.error.injEq] at refused
    exact offends.ne_declaration cause refused

/-! ## A further line -/

/-- The second text has one line more than the first one, in front of the line that ends the data of
the first, if there is one. -/
def AddsLine (text extended : String) (line : List Char) : Prop :=
  ∃ before after, rawLines text = before ++ after ∧
    (∀ l ∈ before, isData (Text.trim l) = true) ∧ rawLines extended = before ++ line :: after

/-- Lines of the data are kept, and what follows them is cut as it would be alone. -/
theorem dataOf_append {before : List (List Char)} (after : List (List Char))
    (data : ∀ l ∈ before, isData (Text.trim l) = true) :
    dataOf (before ++ after) = before.map Text.trim ++ dataOf after := by
  rw [dataOf, List.map_append, List.takeWhile_append_of_pos, dataOf]
  rw [List.forall_mem_map]
  exact data

section AddsLine

variable {text extended : String} {line : List Char} {contents : List Line}

/-- Among what the other lines contribute stands what the further one does. -/
theorem exists_contents_of_addsLine (adds : AddsLine text extended line)
    (lines : List.Forall₂ Denotes (dataLines text) contents) {content : Line}
    (denotes : Denotes (Text.trim line) content) :
    ∃ earlier later, contents = earlier ++ later ∧
      List.Forall₂ Denotes (dataLines extended) (earlier ++ content :: later) := by
  obtain ⟨_, _, old, data, new⟩ := adds
  -- Both texts are cut at the same line, which stands behind the further one.
  have kept : dataLines text = _ := congrArg dataOf old
  have grown : dataLines extended = _ := congrArg dataOf new
  rw [dataOf_append _ data] at kept grown
  rw [dataOf_cons, if_pos (isData_of_denotes denotes)] at grown
  rw [kept] at lines
  obtain ⟨earlier, later, rfl, front, back⟩ := exists_split_of_forall₂ lines
  refine ⟨earlier, later, rfl, ?_⟩
  rw [grown]
  exact List.rel_append front (.cons denotes back)

/-- A problem line that is put among the data of a text without one keeps the clauses and determines
the number of variables. -/
theorem exists_reads_of_addsLine (headless : Headless text) (adds : AddsLine text extended line)
    (lines : List.Forall₂ Denotes (dataLines text) contents) {counts : Header}
    (denotes : Denotes (Text.trim line) (.header counts)) :
    ∃ more, Reads extended more counts.variableCount ∧ clausesOf more = clausesOf contents := by
  obtain ⟨earlier, later, rfl, all⟩ := exists_contents_of_addsLine adds lines denotes
  -- No other line contributes counts, so the further one is the last that does.
  have uncounted := filterMap_header?_eq_nil lines headless
  rw [List.filterMap_append, List.append_eq_nil_iff] at uncounted
  have last : lastHeader? (earlier ++ .header counts :: later) = some counts := by
    rw [lastHeader?, List.filterMap_append, uncounted.1, List.filterMap_cons, Line.header?,
      uncounted.2]
    rfl
  refine ⟨_, reads_of_lines all (.declared last rfl), ?_⟩
  rw [clausesOf, clausesOf, List.filterMap_append, List.filterMap_append]
  rfl

end AddsLine

end Dimacs

open Dimacs

/-- Numbered variables are declared by their numbers. No symbol is declared twice, and over a count
that fits in a list clauses are accepted exactly if every symbol is the canonical numeral of a
number from one to the count; otherwise the first literal with another symbol is named. A greater
count is a fault whatever the clauses are. So a text without a problem line is never refused because
of a variable: if its lines can be read, it is a problem over the least number of variables with
which its clauses make one. A problem line that is put anywhere among its data keeps the clauses and
declares another number, which is accepted exactly if it is not smaller and fits in a list. -/
theorem numbers_declare_variables (cnf : Cnf) (n : Nat) (text : String) :
    ((∀ s, Problem.ofVariables cnf n ≠ .ok (.error (.repeated s))) ∧
      ((∃ p, Problem.ofVariables cnf n = .ok (.ok p)) ↔
        n ≤ Problem.symbolCapacity ∧ ∀ l ∈ Cnf.literals cnf, Text.IsNumberUpTo n l.symbol) ∧
      (∀ s, Problem.ofVariables cnf n = .ok (.error (.undeclared s)) ↔
        n ≤ Problem.symbolCapacity ∧ ∃ before l after, Cnf.literals cnf = before ++ l :: after ∧
          (∀ k ∈ before, Text.IsNumberUpTo n k.symbol) ∧
            ¬ Text.IsNumberUpTo n l.symbol ∧ l.symbol = s) ∧
      ∀ fault, Problem.ofVariables cnf n = .error fault ↔
        Problem.symbolCapacity < n ∧ fault = .capacity) ∧
    (Headless text →
      (∀ cause, parse text ≠ .ok (.error (.declaration cause))) ∧
      ∀ contents, List.Forall₂ Denotes (dataLines text) contents →
        ∃ p, parse text = .ok (.ok p) ∧ p.clauses = clausesOf contents ∧
          p.symbols = Problem.numbers p.variableCount ∧
          (∀ k, (∃ q, Problem.ofVariables p.clauses k = .ok (.ok q)) ↔
            p.variableCount ≤ k ∧ k ≤ Problem.symbolCapacity) ∧
          ∀ extended line counts, AddsLine text extended line →
            Denotes (Text.trim line) (.header counts) →
              (p.variableCount ≤ counts.variableCount →
                counts.variableCount ≤ Problem.symbolCapacity → ∃ q,
                  parse extended = .ok (.ok q) ∧ q.clauses = p.clauses ∧
                    q.symbols = Problem.numbers counts.variableCount) ∧
              (counts.variableCount < p.variableCount → ∃ s,
                Problem.ofVariables p.clauses counts.variableCount = .ok (.error (.undeclared s)) ∧
                  parse extended = .ok (.error (.declaration (.undeclared s)))) ∧
              (Problem.symbolCapacity < counts.variableCount →
                parse extended = .error .capacity)) := by
  refine ⟨⟨?_, ?_, ?_, ?_⟩, fun headless => ⟨?_, fun contents lines => ?_⟩⟩
  · exact Problem.ofVariables_ne_repeated cnf n
  · exact Problem.exists_ofVariables_iff_isNumberUpTo
  · intro s
    rw [Problem.ofVariables_eq_error_iff_isNumberUpTo]
    simp only [DeclarationError.undeclared.injEq, eq_comm]
  · exact fun fault => Problem.ofVariables_eq_fault_iff
  · exact fun cause => parse_ne_declaration_of_headless headless cause
  · obtain ⟨p, accepted, clauses, symbols, least⟩ := exists_parse_of_headless headless lines
    refine ⟨p, accepted, clauses, symbols, least, fun extended line counts adds denotes => ?_⟩
    obtain ⟨more, reads, same⟩ := exists_reads_of_addsLine headless adds lines denotes
    rw [← clauses] at same
    refine ⟨?_, ?_, ?_⟩
    · intro enough fits
      obtain ⟨q, made⟩ := (least counts.variableCount).mpr ⟨enough, fits⟩
      refine ⟨q, ?_, Problem.of_ofVariables_eq_ok made⟩
      rw [parse_eq_ok_iff_of_reads reads, same]
      exact made
    · intro few
      -- No smaller count is accepted, though it fits in a list as the number of variables does.
      have refused : ¬ ∃ q, Problem.ofVariables p.clauses counts.variableCount = .ok (.ok q) := by
        rw [least]
        exact fun accepted => Nat.not_le_of_lt few accepted.1
      have fits : counts.variableCount ≤ Problem.symbolCapacity := by
        obtain ⟨_, _, _, made⟩ := reads_of_parse accepted
        exact Nat.le_trans (Nat.le_of_lt few) (Problem.variableCount_le_symbolCapacity made)
      obtain ⟨s, made⟩ := Problem.exists_undeclared_of_not_accepted fits refused
      refine ⟨s, made, ?_⟩
      rw [parse_eq_error_iff_of_reads reads, same]
      exact ⟨_, made, rfl⟩
    · intro exceeds
      exact (parse_eq_fault_iff_of_reads reads).mpr ⟨exceeds, rfl⟩

/-- No clauses have no literal that numbers would not declare, and yet so many numbers make no
problem. -/
theorem excessive_not_declared :
    (∀ l ∈ Cnf.literals [], Text.IsNumberUpTo 576460752303423488 l.symbol) ∧
      ¬ ∃ p, Problem.ofVariables [] 576460752303423488 = .ok (.ok p) := by
  refine ⟨by simp [Cnf.literals], ?_⟩
  rintro ⟨p, made⟩
  exact absurd (Problem.ofVariables_eq_ok_iff.mp made).1 (by decide)

/-- Two clauses over three variables, and behind the end of the data a further one. -/
def threeUsed : String := "1 -3 0\n2 0\n%\n1 5\n"

/-- What the two lines of clauses contribute. -/
def threeUsedContents : List Line :=
  [.clause ⟨[⟨"1", true⟩, ⟨"3", false⟩], List.cons_ne_nil _ _⟩,
    .clause ⟨[⟨"2", true⟩], List.cons_ne_nil _ _⟩]

theorem dataLines_threeUsed : dataLines threeUsed = ["1 -3 0".toList, "2 0".toList] := by decide

theorem denotes_threeUsed : List.Forall₂ Denotes (dataLines threeUsed) threeUsedContents := by
  rw [dataLines_threeUsed]
  refine .cons ?_ (.cons ?_ .nil)
  · exact (denotes_clause_iff ⟨'1', _, rfl, by decide, by decide, by decide⟩).mpr (by decide)
  · exact (denotes_clause_iff ⟨'2', _, rfl, by decide, by decide, by decide⟩).mpr (by decide)

/-- A problem line between the clauses that declares more variables than they use, and one behind
them that declares fewer. -/
theorem numbers_declare_variables_threeUsed :
    Headless threeUsed ∧
    AddsLine threeUsed "1 -3 0\np cnf 5 2\n2 0\n%\n1 5\n" "p cnf 5 2".toList ∧
    AddsLine threeUsed "1 -3 0\n2 0\n p  2 2 0\n%\n1 5\n" " p  2 2 0".toList ∧
    ∃ p, parse threeUsed = .ok (.ok p) ∧ p.clauses = clausesOf threeUsedContents ∧
      p.variableCount = 3 ∧
      (∃ q, parse "1 -3 0\np cnf 5 2\n2 0\n%\n1 5\n" = .ok (.ok q) ∧ q.clauses = p.clauses ∧
        q.symbols = Problem.numbers 5) ∧
      ∃ s, parse "1 -3 0\n2 0\n p  2 2 0\n%\n1 5\n" =
        .ok (.error (.declaration (.undeclared s))) := by
  have headless : Headless threeUsed := by
    rw [Headless, dataLines_threeUsed]
    decide
  have between : AddsLine threeUsed "1 -3 0\np cnf 5 2\n2 0\n%\n1 5\n" "p cnf 5 2".toList :=
    ⟨["1 -3 0".toList], ["2 0".toList, ['%'], "1 5".toList], by decide, by decide, by decide⟩
  have behind : AddsLine threeUsed "1 -3 0\n2 0\n p  2 2 0\n%\n1 5\n" " p  2 2 0".toList :=
    ⟨["1 -3 0".toList, "2 0".toList], [['%'], "1 5".toList], by decide, by decide, by decide⟩
  have five : Denotes (Text.trim "p cnf 5 2".toList) (.header ⟨5, 2⟩) := by
    have trimmed : Text.trim "p cnf 5 2".toList = "p cnf 5 2".toList := by decide
    rw [trimmed]
    exact .problem (Header.read?_eq_some_iff.mp (by decide))
  have two : Denotes (Text.trim " p  2 2 0".toList) (.header ⟨2, 0⟩) := by
    have trimmed : Text.trim " p  2 2 0".toList = "p  2 2 0".toList := by decide
    rw [trimmed]
    exact .problem (Header.read?_eq_some_iff.mp (by decide))
  have declares := fun cnf n => (numbers_declare_variables cnf n threeUsed).1
  obtain ⟨p, accepted, clauses, -, least, adding⟩ :=
    ((numbers_declare_variables [] 0 threeUsed).2 headless).2 threeUsedContents denotes_threeUsed
  -- The least accepted count is found by asking which numerals the clauses use.
  have accepts : ∀ n ≤ Problem.symbolCapacity, p.variableCount ≤ n ↔
      ∀ l ∈ Cnf.literals (clausesOf threeUsedContents), l.symbol ∈ Problem.numbers n := by
    intro n fits
    have accepted := (declares p.clauses n).2.1
    rw [least, and_iff_left fits, and_iff_right fits, clauses] at accepted
    simpa only [Problem.mem_numbers_iff] using accepted
  have count : p.variableCount = 3 := by
    have enough : p.variableCount ≤ 3 := (accepts 3 (by decide)).mpr (by decide)
    have few : ¬ p.variableCount ≤ 2 := fun le =>
      absurd ((accepts 2 (by decide)).mp le) (by decide)
    omega
  rw [count] at adding
  obtain ⟨q, widened, same, symbols⟩ := (adding _ _ _ between five).1 (by decide) (by decide)
  obtain ⟨s, -, refused⟩ := (adding _ _ _ behind two).2.1 (by decide)
  exact ⟨headless, between, behind, p, accepted, clauses, count, ⟨q, widened, same, symbols⟩, s,
    refused⟩

end CnfSearch

import CnfSearch.Proofs.Dimacs.Format
import CnfSearch.Proofs.Text.Words

set_option autoImplicit false

/-!
# What the first bytes of a file decide

A file is read line by line, and each line is decoded by itself. A line of bytes ends the data
(`Ends`), cannot be read (`Fails`), or has one of the forms of a data line (`Passes`); it is always
one of the three (`ends_or_fails_or_passes`). The first line of one of the first two kinds decides
on the whole file, whatever bytes follow, and no other line does: `first_lines_decide_reading`.
-/

namespace CnfSearch.Dimacs

/-! ## Lines of bytes -/

/-- The lines of a byte sequence. -/
def byteLines (bytes : List UInt8) : List (List UInt8) := Text.pieces (fun b => b == 10) bytes

/-- The bytes are the UTF-8 form of the characters. -/
def Spells (line : List UInt8) (chars : List Char) : Prop :=
  line = chars.flatMap String.utf8EncodeChar

/-- The characters that a line of bytes spells. -/
def decode? (line : List UInt8) : Option (List Char) :=
  (String.fromUTF8? ⟨line.toArray⟩).map String.toList

theorem linesOfBytes_eq_map_decode? (bytes : List UInt8) :
    linesOfBytes bytes = (byteLines bytes).map decode? := rfl

/-- Decoding gives the one text that has these bytes. -/
theorem fromUTF8?_eq_some_iff {bytes : ByteArray} {text : String} :
    String.fromUTF8? bytes = some text ↔ text.toByteArray = bytes := by
  rw [String.fromUTF8?]
  constructor
  · intro h
    split at h
    next valid =>
      cases h
      rfl
    next => cases h
  · rintro rfl
    rw [dif_pos text.isValidUTF8]
    rfl

theorem decode?_eq_some_iff {line : List UInt8} {chars : List Char} :
    decode? line = some chars ↔ Spells line chars := by
  have bytes : (String.ofList chars).toByteArray = ⟨line.toArray⟩ ↔ Spells line chars := by
    rw [String.toByteArray_ofList, List.utf8Encode, ByteArray.ext_iff, List.data_toByteArray,
      List.toArray_eq_toArray_eq, eq_comm, Spells]
  rw [decode?, Option.map_eq_some_iff, ← bytes, ← fromUTF8?_eq_some_iff]
  constructor
  · rintro ⟨text, decoded, rfl⟩
    rwa [String.ofList_toList]
  · intro decoded
    exact ⟨_, decoded, String.toList_ofList⟩

theorem decode?_eq_none_iff {line : List UInt8} :
    decode? line = none ↔ ∀ chars, ¬ Spells line chars := by
  simp only [Option.eq_none_iff_forall_ne_some, ne_eq, decode?_eq_some_iff]

/-- The line spells a text that ends the data. -/
def Ends (line : List UInt8) : Prop :=
  ∃ chars, Spells line chars ∧ isData (Text.trim chars) = false

/-- The line spells no text, or one that offends. -/
inductive Fails : List UInt8 → LoadError → Prop where
  | notText {line : List UInt8} (unspelled : ∀ chars, ¬ Spells line chars) :
      Fails line (.unreadable .notUtf8)
  | offends {line : List UInt8} {chars : List Char} {e : LoadError} (spells : Spells line chars)
      (offends : Offends (Text.trim chars) e) : Fails line e

/-- The line spells a text that has a form. -/
def Passes (line : List UInt8) (content : Line) : Prop :=
  ∃ chars, Spells line chars ∧ Denotes (Text.trim chars) content

/-- Neither does the line end the data nor is it in error. -/
structure Undecided (line : List UInt8) : Prop where
  goesOn : ¬ Ends line
  readable : ∀ e, ¬ Fails line e

theorem ends_or_fails_or_passes (line : List UInt8) :
    Ends line ∨ (∃ e, Fails line e) ∨ ∃ content, Passes line content := by
  cases hline : decode? line with
  | none => exact .inr (.inl ⟨_, .notText (decode?_eq_none_iff.mp hline)⟩)
  | some chars =>
    have spells := decode?_eq_some_iff.mp hline
    cases data : isData (Text.trim chars) with
    | false => exact .inl ⟨chars, spells, data⟩
    | true =>
      rcases denotes_or_offends data with ⟨content, denotes⟩ | ⟨e, offends⟩
      · exact .inr (.inr ⟨content, chars, spells, denotes⟩)
      · exact .inr (.inl ⟨e, .offends spells offends⟩)

theorem Spells.unique {line : List UInt8} {chars others : List Char} (h : Spells line chars)
    (h' : Spells line others) : chars = others := by
  rw [← decode?_eq_some_iff] at h h'
  rw [h, Option.some.injEq] at h'
  exact h'

theorem undecided_iff_passes {line : List UInt8} :
    Undecided line ↔ ∃ content, Passes line content := by
  constructor
  · rintro ⟨goesOn, readable⟩
    rcases ends_or_fails_or_passes line with ends | ⟨e, fails⟩ | passes
    · exact absurd ends goesOn
    · exact absurd fails (readable e)
    · exact passes
  · rintro ⟨content, chars, spells, denotes⟩
    constructor
    · rintro ⟨others, also, stop⟩
      rw [← spells.unique also, isData_of_denotes denotes] at stop
      cases stop
    · intro e fails
      cases fails with
      | notText unspelled => exact unspelled chars spells
      | offends also offends =>
        -- The reader has one answer to a line, so it cannot have a form and offend.
        rw [← spells.unique also] at offends
        have answer := Line.read_of_offends offends
        rw [Line.read_of_denotes denotes] at answer
        cases answer

/-! ## The reader on lines of bytes -/

section Scan

variable {line : List UInt8} (d : Draft) (rest : List (List UInt8))

theorem scan_of_ends (h : Ends line) : scan d ((line :: rest).map decode?) = .ok d := by
  obtain ⟨chars, spells, stop⟩ := h
  rw [List.map_cons, decode?_eq_some_iff.mpr spells, scan, Line.read_of_end stop]

theorem scan_of_fails {e : LoadError} (h : Fails line e) :
    scan d ((line :: rest).map decode?) = .error e := by
  cases h with
  | notText unspelled =>
    rw [List.map_cons, decode?_eq_none_iff.mpr unspelled]
    rfl
  | offends spells offends =>
    rw [List.map_cons, decode?_eq_some_iff.mpr spells, scan, Line.read_of_offends offends]

theorem scan_of_passes {content : Line} (h : Passes line content) :
    scan d ((line :: rest).map decode?) = scan (d.extend content) (rest.map decode?) := by
  obtain ⟨chars, spells, denotes⟩ := h
  rw [List.map_cons, decode?_eq_some_iff.mpr spells, scan_cons_of_denotes d _ denotes]

end Scan

/-- Lines that decide nothing are read into the draft, and the reading goes on behind them. -/
theorem exists_scan_of_undecided {lines : List (List UInt8)} (h : ∀ l ∈ lines, Undecided l) :
    ∃ contents, List.Forall₂ Passes lines contents ∧ ∀ d rest,
      scan d ((lines ++ rest).map decode?) =
        scan (contents.foldl Draft.extend d) (rest.map decode?) := by
  induction lines with
  | nil => exact ⟨[], .nil, fun _ _ => rfl⟩
  | cons line lines ih =>
    rw [List.forall_mem_cons] at h
    obtain ⟨content, passes⟩ := undecided_iff_passes.mp h.1
    obtain ⟨contents, later, hscan⟩ := ih h.2
    refine ⟨content :: contents, .cons passes later, fun d rest => ?_⟩
    rw [List.cons_append, scan_of_passes d _ passes, hscan]
    rfl

/-- If the data end before a line is in error, the draft is complete there. -/
theorem exists_scan_of_ends {before : List (List UInt8)} {line : List UInt8}
    (readable : ∀ l ∈ before, ∀ e, ¬ Fails l e) (ends : Ends line) (d : Draft) :
    ∃ complete, ∀ rest, scan d ((before ++ line :: rest).map decode?) = .ok complete := by
  induction before generalizing d with
  | nil => exact ⟨d, fun rest => scan_of_ends d rest ends⟩
  | cons first before ih =>
    rw [List.forall_mem_cons] at readable
    rcases ends_or_fails_or_passes first with earlier | ⟨e, fails⟩ | ⟨content, passes⟩
    · exact ⟨d, fun rest => scan_of_ends d _ earlier⟩
    · exact absurd fails (readable.1 e)
    · obtain ⟨complete, hscan⟩ := ih readable.2 (d.extend content)
      refine ⟨complete, fun rest => ?_⟩
      rw [List.cons_append, scan_of_passes d _ passes, hscan]

/-- The lines of a closed byte sequence stay as they are when bytes follow. -/
theorem byteLines_append {bytes : List UInt8} (closed : bytes.getLast? = some 10)
    (more : List UInt8) : byteLines (bytes ++ more) = byteLines bytes ++ byteLines more :=
  Text.pieces_append_of_closed more closed rfl

/-! ## Bytes that follow -/

theorem readBytes_append {bytes : List UInt8} (closed : bytes.getLast? = some 10)
    (more : List UInt8) :
    readBytes (bytes ++ more) = readLines ((byteLines bytes ++ byteLines more).map decode?) := by
  rw [readBytes, linesOfBytes_eq_map_decode?, byteLines_append closed]

/-- A problem line that declares all variables that a literal can name. -/
def amplePromise : List UInt8 := "p cnf 4294967295 0\n".toUTF8.data.toList

theorem passes_amplePromise : ∃ line, byteLines amplePromise = [line] ∧
    Passes line (.header ⟨Literal.greatestVariable, 0⟩) := by
  refine ⟨_, rfl, "p cnf 4294967295 0".toList, rfl, ?_⟩
  have trimmed : Text.trim "p cnf 4294967295 0".toList = "p cnf 4294967295 0".toList := by decide
  rw [trimmed]
  apply Denotes.problem
  rw [← Header.read?_eq_some_iff]
  decide

/-- Clauses read from lines make a problem once all variables are declared. -/
theorem exists_parseBytes_of_undecided {bytes : List UInt8} (closed : bytes.getLast? = some 10)
    (undecided : ∀ l ∈ byteLines bytes, Undecided l) :
    ∃ p, parseBytes (bytes ++ amplePromise) = .ok (.ok p) := by
  obtain ⟨contents, passes, hscan⟩ := exists_scan_of_undecided undecided
  obtain ⟨promise, hlines, denotes⟩ := passes_amplePromise
  have numbered : Cnf.Numbered (clausesOf contents) := by
    apply numbered_clausesOf
    intro content hcontent
    obtain ⟨line, -, chars, -, denotes⟩ := exists_of_mem_right passes content hcontent
    exact ⟨_, denotes⟩
  have declared : ∀ v, Cnf.Uses (clausesOf contents) v → v ≤ Literal.greatestVariable := by
    rintro v ⟨l, hl, symbol⟩
    obtain ⟨w, hw⟩ := numbered l hl
    rw [hw.symbol] at symbol
    rw [← Text.repr_injective symbol]
    exact hw.le
  obtain ⟨p, made⟩ := (Problem.exists_ofVariables_iff numbered).mpr ⟨by decide, declared⟩
  refine ⟨p, ?_⟩
  rw [parseBytes, readBytes_append closed, hlines, readLines, hscan, scan_of_passes _ _ denotes]
  -- The promise adds no clause, and its count replaces any other.
  change ((Draft.ofLines contents).extend (.header ⟨Literal.greatestVariable, 0⟩)).toProblem =
    .ok (.ok p)
  rw [Draft.toProblem, Draft.extend, Draft.clauses_ofLines, Draft.variableCount, made]

/-- The first line that ends the data or is in error decides on all bytes that follow the line feed
behind it: once the data have ended these change nothing, and a line in error gives its error in
front of all of them. Lines of neither kind leave it open, also those that use a variable which is
not declared so far: bytes may follow with which they make a problem. -/
theorem first_lines_decide_reading {bytes : List UInt8} (closed : bytes.getLast? = some 10) :
    (∀ before line after, byteLines bytes = before ++ line :: after →
      (∀ l ∈ before, ∀ e, ¬ Fails l e) → Ends line →
        ∀ more others, readBytes (bytes ++ more) = readBytes (bytes ++ others)) ∧
    (∀ before line after e, byteLines bytes = before ++ line :: after →
      (∀ l ∈ before, Undecided l) → Fails line e →
        ∀ more, readBytes (bytes ++ more) = ⟨.ok (.error e), []⟩) ∧
    ((∀ l ∈ byteLines bytes, Undecided l) →
      ∃ more p, parseBytes (bytes ++ more) = .ok (.ok p)) := by
  refine ⟨?_, ?_, fun undecided => ⟨amplePromise, exists_parseBytes_of_undecided closed undecided⟩⟩
  · intro before line after split readable ends more others
    obtain ⟨complete, hscan⟩ := exists_scan_of_ends readable ends .empty
    have whole : ∀ more, readBytes (bytes ++ more) = ⟨complete.toProblem, complete.notes⟩ := by
      intro more
      rw [readBytes_append closed, split, List.append_assoc, List.cons_append, readLines, hscan]
    rw [whole, whole]
  · intro before line after e split undecided fails more
    obtain ⟨contents, -, hscan⟩ := exists_scan_of_undecided undecided
    rw [readBytes_append closed, split, List.append_assoc, List.cons_append, readLines, hscan,
      scan_of_fails _ _ fails]

/-- The line `1 0`. -/
def unitLine : List UInt8 := [49, 32, 48]

/-- The line `p c 0 0`. -/
def emptyPromise : List UInt8 := [112, 32, 99, 32, 48, 32, 48]

theorem passes_unitLine : Passes unitLine (.clause ⟨[⟨"1", true⟩], List.cons_ne_nil _ _⟩) := by
  refine ⟨['1', ' ', '0'], rfl, ?_⟩
  exact (denotes_clause_iff ⟨'1', _, rfl, by decide, by decide, by decide⟩).mpr (by decide)

theorem passes_emptyPromise : Passes emptyPromise (.header ⟨0, 0⟩) := by
  refine ⟨['p', ' ', 'c', ' ', '0', ' ', '0'], rfl, ?_⟩
  apply Denotes.problem
  rw [← Header.read?_eq_some_iff]
  decide

/-- A clause with a marker behind it, with bytes that spell no text behind it, and over a variable
that the problem line does not declare. -/
theorem first_lines_decide_reading_unit :
    (Undecided unitLine ∧ Undecided emptyPromise ∧ Ends [37] ∧ Fails [255] (.unreadable .notUtf8)) ∧
    (∀ more, readBytes (unitLine ++ [10, 37, 10] ++ more) =
      readBytes (unitLine ++ [10, 37, 10])) ∧
    (∀ more, readBytes (unitLine ++ [10, 255, 10] ++ more) =
      ⟨.ok (.error (.unreadable .notUtf8)), []⟩) ∧
    parseBytes (emptyPromise ++ 10 :: unitLine ++ [10]) =
      .ok (.error (.declaration (.undeclared "1"))) ∧
    ∃ more p, parseBytes (emptyPromise ++ 10 :: unitLine ++ [10] ++ more) = .ok (.ok p) := by
  have unit : Undecided unitLine := undecided_iff_passes.mpr ⟨_, passes_unitLine⟩
  have promise : Undecided emptyPromise := undecided_iff_passes.mpr ⟨_, passes_emptyPromise⟩
  have ends : Ends [37] := ⟨['%'], rfl, by decide⟩
  have fails : Fails [255] (.unreadable .notUtf8) := .notText (decode?_eq_none_iff.mp (by decide))
  have lines : byteLines (emptyPromise ++ 10 :: unitLine ++ [10]) = [emptyPromise, unitLine] := rfl
  refine ⟨⟨unit, promise, ends, fails⟩, fun more => ?_, ?_, ?_, ?_⟩
  · exact (first_lines_decide_reading rfl).1 [unitLine] [37] [] rfl
      (by simpa using unit.readable) ends more []
  · exact (first_lines_decide_reading rfl).2.1 [unitLine] [255] [] _ rfl (by simpa using unit) fails
  · rw [parseBytes, readBytes, linesOfBytes_eq_map_decode?, lines, readLines,
      scan_of_passes _ _ passes_emptyPromise, scan_of_passes _ _ passes_unitLine]
    have refused : Problem.ofVariables [⟨[⟨"1", true⟩], List.cons_ne_nil _ _⟩] 0 =
        .ok (.error (.undeclared "1")) :=
      Problem.ofVariables_eq_ok_iff.mpr ⟨by decide,
        (Problem.declare_eq_error_iff (Problem.nodup_numbers 0)).mpr
          ⟨[], ⟨"1", true⟩, [], rfl, by simp, by decide, rfl⟩⟩
    change Draft.toProblem ⟨some ⟨0, 0⟩, #[⟨[⟨"1", true⟩], List.cons_ne_nil _ _⟩]⟩ = _
    rw [Draft.toProblem, Draft.variableCount, refused]
  · apply (first_lines_decide_reading rfl).2.2
    rw [lines, List.forall_mem_cons, List.forall_mem_singleton]
    exact ⟨promise, unit⟩

end CnfSearch.Dimacs

import CnfSearch.Proofs.Command.Always
import CnfSearch.Proofs.Command.Attempts
import CnfSearch.Proofs.Command.Lines
import CnfSearch.Proofs.Dimacs.Format
import CnfSearch.Proofs.Problem.Models
import CnfSearch.Random.Generator

set_option autoImplicit false

/-!
# The verdict on a text

A text is read into a problem over numbered variables or refused. What is done with a problem is
followed through its report: the solve prints nothing (`always_timedSolve`), a model passes its
check (`always_verify`), and the only verdict is the last line and stands for an answer that the
strategy may give (`always_report`). `solveText_verdict` says what this means for every text, all
options, every host and every source of draws.
-/

namespace CnfSearch

/-- The symbols of a problem that is read are numbers. -/
theorem Dimacs.symbols_of_parse {text : String} {p : Problem}
    (h : Dimacs.parse text = .ok (.ok p)) : ∃ count, p.symbols = Problem.numbers count := by
  obtain ⟨_, count, _, made⟩ := reads_of_parse h
  exact ⟨count, (Problem.of_ofVariables_eq_ok made).2⟩

namespace Command

section Report

variable {G : Type} [SeededSource G] {p : Problem} {options : Options}

/-- The log of a solve is told without a printed line. -/
theorem silent_log (entries : List LogEntry) :
    Task.Silent (entries.forM fun entry =>
      if entry.severity = .trace then pure () else note entry) := by
  apply Task.silent_forM
  intro entry _
  split
  · exact Task.silent_pure
  · exact Task.silent_note entry

/-- A timed solve prints nothing and gives what the solve gives. -/
theorem always_timedSolve {post : List String → Except CommandError (Outcome × Option Nat) → Prop}
    (h : ∀ (source : G) (time : Option Nat),
      post [] ((solve p options source).map fun outcome => (outcome, time))) :
    (timedSolve G p options).Always post := by
  -- The word for the draws and both readings of the clock are arbitrary.
  rw [timedSolve, Task.always_bind, Task.always_entropy]
  intro w
  dsimp only
  rw [Task.always_bind, Task.always_clock]
  intro before
  dsimp only
  rw [Task.always_bind, Task.always_clock]
  intro after
  have hpost := h (options.solverOptions.source (SeededSource.ofSeed w)) (elapsed before after)
  cases hsolve : solve p options (options.solverOptions.source (SeededSource.ofSeed w : G)) with
  | error cause =>
    rw [hsolve] at hpost
    exact hpost
  | ok outcome =>
    rw [hsolve] at hpost
    dsimp only
    split
    · split
      · rw [Task.always_bind, silent_log]
        exact hpost
      · exact hpost
    · exact hpost

/-- A model that is checked passes, and nothing else is printed about it. -/
theorem always_verify {answer : Answer} {post : List String → Except CommandError Unit → Prop}
    (allowed : Allowed p options answer)
    (h : ∀ lines, (∀ line ∈ lines, Plain line) → post lines (.ok ())) :
    (verify p answer).Always post := by
  cases answer with
  | ok model =>
    have passes : p.verify model = true := Problem.verify_iff_isModel.mpr allowed
    rw [verify, if_pos passes, Task.always_print]
    exact h _ (by simpa using plain_passedCheck)
  | error failure => exact h [] (by simp)

/-- Behind plain lines the table and the result lines report the answer. -/
theorem always_tableAndResult (numbered : Numbered p) {outcome : Outcome}
    {m : Option Memory → Measures} {lines : List String} (plain : ∀ line ∈ lines, Plain line) :
    Task.Always
      (if options.statistics = true then do
        let memory ← memory
        (statistics p outcome (m memory)).forM print
        (resultLines p outcome.answer options.printSolution).forM print
      else (resultLines p outcome.answer options.printSolution).forM print)
      fun more result =>
        result = .ok () ∧ SoleVerdict (verdict outcome.answer) (lines ++ more) := by
  have ending := soleVerdict_resultLines numbered outcome.answer options.printSolution
  split
  · rw [Task.always_bind, Task.always_memory]
    intro memory
    dsimp only
    rw [Task.always_bind, Task.always_forM_print]
    dsimp only
    rw [Task.always_forM_print]
    have table := plain_of_mem_statistics p outcome (m memory)
    exact ⟨rfl, (ending.prepend table).prepend plain⟩
  · rw [Task.always_forM_print]
    exact ⟨rfl, ending.prepend plain⟩

/-- With valid options a report succeeds, and its only verdict is on an allowed answer. -/
theorem always_report (numbered : Numbered p) (valid : options.Valid) (parseTime : Option Nat) :
    (report G p options none parseTime).Always fun lines result =>
      result = .ok () ∧
        ∃ answer, Allowed p options answer ∧ SoleVerdict (verdict answer) lines := by
  rw [report]
  dsimp only
  rw [Task.always_bind]
  apply always_timedSolve
  intro source time
  obtain ⟨outcome, hsolve, allowed⟩ := solve_allowed p valid source
  rw [hsolve]
  dsimp only [Except.map]
  -- The check prints its line, if any, before the table and the result.
  split
  · rw [Task.always_bind]
    apply always_verify allowed
    intro lines plain
    exact (always_tableAndResult numbered plain).mono fun more result h =>
      ⟨h.1, outcome.answer, allowed, h.2⟩
  · have nothing : ∀ line ∈ ([] : List String), Plain line := by simp
    exact (always_tableAndResult numbered nothing).mono fun more result h =>
      ⟨h.1, outcome.answer, allowed, h.2⟩

/-- A walk without a probability as its noise is reported by its error alone. -/
theorem always_report_refused (hstrategy : options.strategy = .walking)
    (invalid : ¬ (0 ≤ options.noise ∧ options.noise ≤ 1)) (parseTime : Option Nat) :
    (report G p options none parseTime).Always fun lines result =>
      lines = [] ∧ result = .error (.noise ⟨options.noise⟩) := by
  rw [report]
  dsimp only
  rw [Task.always_bind]
  apply always_timedSolve
  intro source time
  rw [solve_refused p hstrategy invalid]
  exact ⟨rfl, rfl⟩

end Report

/-- Solving a text loads its problem and then only reports on it. -/
theorem always_solveText {G : Type} [SeededSource G] {text : String} {options : Options}
    {post : List String → Except CommandError Unit → Prop} :
    (solveText G text options).Always post ↔
      ∀ before after : Option Nat, match Dimacs.parse text with
        | .error fault => post [] (.error (.fault fault))
        | .ok (.error cause) => post [] (.error (.load cause))
        | .ok (.ok p) => (report G p options none (elapsed before after)).Always post := by
  rw [solveText, Task.always_bind, Task.always_clock]
  refine forall_congr' fun before => ?_
  dsimp only
  rw [Task.always_bind, Task.always_load, loadResult]
  change _ ↔ ∀ _, match (Dimacs.read text).result with
    | .error fault => _ | .ok (.error cause) => _ | .ok (.ok p) => _
  rcases (Dimacs.read text).result with fault | cause | p
  · exact (forall_const (Option Nat)).symm
  · exact (forall_const (Option Nat)).symm
  · rfl

/-- The wording of a verdict around the message of a spent budget. -/
theorem unknown_text (steps : String) :
    "UNKNOWN (" ++ ("no satisfying assignment found within " ++ steps ++ " steps") ++ ")" =
      "UNKNOWN (no satisfying assignment found within " ++ steps ++ " steps)" := by
  simp [← String.toList_inj]

section Allowed

variable {p : Problem} {options : Options} {answer : Answer}

/-- Backtracking tells whether the problem has a model. -/
theorem Allowed.verdict_backtracking (h : Allowed p options answer)
    (hstrategy : options.strategy = .backtracking) :
    (p.clauses.Satisfiable ∧ verdict answer = "SATISFIABLE") ∨
      (¬ p.clauses.Satisfiable ∧ verdict answer = "UNSATISFIABLE") := by
  cases answer with
  | ok model => exact Or.inl ⟨h.satisfiable, rfl⟩
  | error failure =>
    simp only [Allowed, hstrategy] at h
    obtain ⟨rfl, unsatisfiable⟩ := h
    exact Or.inr ⟨unsatisfiable, rfl⟩

/-- A walk tells that the problem has a model, or nothing. -/
theorem Allowed.verdict_walking (h : Allowed p options answer)
    (hstrategy : options.strategy = .walking) :
    (p.clauses.Satisfiable ∧ verdict answer = "SATISFIABLE") ∨
      verdict answer = "UNKNOWN (no satisfying assignment found within " ++ options.maxSteps.repr
        ++ " steps)" := by
  cases answer with
  | ok model => exact Or.inl ⟨h.satisfiable, rfl⟩
  | error failure =>
    simp only [Allowed, hstrategy] at h
    subst h
    exact Or.inr (unknown_text options.maxSteps.repr)

end Allowed

/-- What is printed about a text is right, whatever the clock, the memory and the draws are. A text
that is no problem is refused without a printed line. Backtracking ends with the verdict that the
problem has. A random walk ends with the right verdict or with none, unless its noise is no
probability: then it is refused. No check of a model fails. A text whose problem line declares more
variables than fit in a list, and only such a text, ends with a fault before anything is printed. -/
theorem solveText_verdict {G : Type} [SeededSource G] (text : String) (options : Options) :
    (solveText G text options).Always fun lines result =>
      match Dimacs.parse text with
      | .error fault => fault = .capacity ∧ lines = [] ∧ result = .error (.fault fault) ∧
          ∃ contents n, Dimacs.Reads text contents n ∧ Problem.symbolCapacity < n
      | .ok (.error cause) => lines = [] ∧ result = .error (.load cause)
      | .ok (.ok p) =>
        "Verified: false" ∉ lines ∧ result ≠ .error .notVerified ∧
          match options.strategy with
          | .backtracking =>
            result = .ok () ∧
              ((p.clauses.Satisfiable ∧ SoleVerdict "SATISFIABLE" lines) ∨
                (¬ p.clauses.Satisfiable ∧ SoleVerdict "UNSATISFIABLE" lines))
          | .walking =>
            if 0 ≤ options.noise ∧ options.noise ≤ 1 then
              result = .ok () ∧
                ((p.clauses.Satisfiable ∧ SoleVerdict "SATISFIABLE" lines) ∨
                  SoleVerdict ("UNKNOWN (no satisfying assignment found within "
                    ++ options.maxSteps.repr ++ " steps)") lines)
            else lines = [] ∧ result = .error (.noise ⟨options.noise⟩) := by
  rw [always_solveText]
  intro before after
  rcases hparse : Dimacs.parse text with fault | cause | p
  · obtain ⟨rfl, exceeds⟩ := Dimacs.parse_eq_fault_iff.mp hparse
    exact ⟨rfl, rfl, rfl, exceeds⟩
  · exact ⟨rfl, rfl⟩
  · obtain ⟨count, hsymbols⟩ := Dimacs.symbols_of_parse hparse
    have numbered := numbered_of_numbers hsymbols
    cases hstrategy : options.strategy with
    | backtracking =>
      have valid : options.Valid := fun h => by simp [hstrategy] at h
      refine (always_report numbered valid _).mono ?_
      rintro lines _ ⟨rfl, answer, allowed, sole⟩
      refine ⟨sole.no_failedCheck, by simp, rfl, ?_⟩
      rcases allowed.verdict_backtracking hstrategy with
        ⟨satisfiable, hverdict⟩ | ⟨unsatisfiable, hverdict⟩
      · exact Or.inl ⟨satisfiable, hverdict ▸ sole⟩
      · exact Or.inr ⟨unsatisfiable, hverdict ▸ sole⟩
    | walking =>
      dsimp only
      split
      next inRange =>
        refine (always_report numbered (fun _ => inRange) _).mono ?_
        rintro lines _ ⟨rfl, answer, allowed, sole⟩
        refine ⟨sole.no_failedCheck, by simp, rfl, ?_⟩
        rcases allowed.verdict_walking hstrategy with ⟨satisfiable, hverdict⟩ | hverdict
        · exact Or.inl ⟨satisfiable, hverdict ▸ sole⟩
        · exact Or.inr (hverdict ▸ sole)
      next outOfRange =>
        refine (always_report_refused hstrategy outOfRange _).mono ?_
        rintro _ _ ⟨rfl, rfl⟩
        exact ⟨by simp, by simp, rfl, rfl⟩

/-- A text that is not refused is not solved either: it declares too many variables. -/
theorem excessive_not_solved :
    (∀ cause, Dimacs.parse Dimacs.excessive ≠ .ok (.error cause)) ∧
      ¬ (solveText Generator Dimacs.excessive {}).Always fun _ result => result = .ok () := by
  constructor
  · intro cause refused
    rw [Dimacs.parse_excessive] at refused
    cases refused
  · rw [always_solveText, Dimacs.parse_excessive]
    intro succeeds
    cases succeeds none none

end Command

end CnfSearch

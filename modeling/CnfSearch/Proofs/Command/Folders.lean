import CnfSearch.Command.Solve
import CnfSearch.Proofs.Command.Routes
import CnfSearch.Random.Generator

set_option autoImplicit false

/-!
# Solving a folder

To solve a folder is to solve its problems one after another: what is printed is what the files
print, up to and including the first that fails (`InTurn`, `inTurn_solveFiles`). What is printed
about one file is determined by the bytes of the file as long as nothing is drawn at random without
a seed (`Task.sameOn_solveFile`), so neither the files around it nor those solved before it matter.
All this holds for any source of draws.
`folder_solves_each_file` puts both together with the routes of the search.
-/

namespace CnfSearch.Command

namespace Task

variable {α β : Type} {host other : Script.Host}

/-- The lines that a task prints on a host, and its result or error. -/
def output (host : Script.Host) (t : Task α) : List String × Except CommandError α :=
  (ExceptT.run t).output host

theorem output_bind (host : Script.Host) (t : Task α) (next : α → Task β) :
    (t >>= next).output host =
      match t.output host with
      | (lines, .ok a) => (lines ++ ((next a).output host).1, ((next a).output host).2)
      | (lines, .error cause) => (lines, .error cause) := by
  refine (Script.output_bind host (ExceptT.run t) _).trans ?_
  rw [output]
  rcases (ExceptT.run t).output host with ⟨lines, cause | a⟩
  · exact congrArg (·, _) (List.append_nil lines)
  · rfl

/-- A task prints the same lines on two hosts and ends alike. -/
def SameOn (host other : Script.Host) (t : Task α) : Prop := t.output other = t.output host

theorem SameOn.bind {t : Task α} {next : α → Task β} (h : t.SameOn host other)
    (hnext : ∀ a, (next a).SameOn host other) : (t >>= next).SameOn host other := by
  rw [SameOn, output_bind, output_bind, h]
  rcases t.output host with ⟨lines, cause | a⟩
  · rfl
  · exact congrArg (fun output => (lines ++ output.1, output.2)) (hnext a)

theorem sameOn_pure (a : α) : (pure a : Task α).SameOn host other := rfl

theorem sameOn_throw (cause : CommandError) : (throw cause : Task α).SameOn host other := rfl

theorem sameOn_print (line : String) : (print line).SameOn host other := rfl

theorem sameOn_note (entry : LogEntry) : (note entry).SameOn host other := rfl

theorem sameOn_clock : clock.SameOn host other := rfl

theorem sameOn_memory : memory.SameOn host other := rfl

/-- The word of a host does not matter to a task that does the same with every word. -/
theorem sameOn_entropy_bind {G : Type} [SeededSource G] {next : G → Task α}
    (constant : ∀ g g', next g = next g') (h : ∀ g, (next g).SameOn host other) :
    (entropy G >>= next).SameOn host other := by
  have drawn : ∀ host : Script.Host, (entropy G >>= next).output host =
      (next (SeededSource.ofSeed host.entropy)).output host :=
    fun host => output_bind host (entropy G) next
  rw [SameOn, drawn, drawn,
    constant (SeededSource.ofSeed other.entropy) (SeededSource.ofSeed host.entropy)]
  exact h _

/-- Only the bytes of the file matter to its reading. -/
theorem sameOn_read {path : String} (h : other.read path = host.read path) :
    SameOn host other (ExceptT.lift (.read path .done)) :=
  congrArg (fun bytes => ([], Except.ok bytes)) h

theorem sameOn_forM {xs : List β} {act : β → Task Unit} (h : ∀ x, (act x).SameOn host other) :
    SameOn host other (xs.forM act) := by
  induction xs with
  | nil => exact sameOn_pure ()
  | cons x xs ih => exact (h x).bind fun _ => ih

end Task

/-! ## One file -/

/-- Nothing is drawn at random without a seed. -/
def Options.Reproducible (o : Options) : Prop :=
  o.strategy = .backtracking ∨ o.seed.isSome = true

section Reproducible

variable {G : Type} [SeededSource G] {p : Problem} {options : Options} {host other : Script.Host}

/-- A solver that draws from a seed, or not at all, does not depend on other draws. -/
theorem Options.Reproducible.solver_eq (h : options.Reproducible) (g g' : G) :
    options.strategy.solver options.solverOptions (options.solverOptions.source g) =
      options.strategy.solver options.solverOptions (options.solverOptions.source g') := by
  rcases h with hstrategy | hseed
  · rw [hstrategy, Strategy.solver, Strategy.solver]
  · obtain ⟨seed, hseed⟩ := Option.isSome_iff_exists.mp hseed
    simp [SolverOptions.source, Options.solverOptions, hseed]

theorem Options.Reproducible.solve_eq (h : options.Reproducible) (p : Problem)
    (g g' : G) :
    solve p options (options.solverOptions.source g) =
      solve p options (options.solverOptions.source g') := by
  rw [solve, solve, h.solver_eq g g']

namespace Task

theorem sameOn_timedSolve (h : options.Reproducible) :
    (timedSolve G p options).SameOn host other := by
  rw [timedSolve]
  refine sameOn_entropy_bind (fun g g' => ?_) fun g => ?_
  · dsimp only
    rw [h.solve_eq p g g', h.solver_eq g g']
  · refine sameOn_clock.bind fun before => sameOn_clock.bind fun after => ?_
    split
    next outcome _ =>
      have done : SameOn host other (pure (outcome, elapsed before after)) := sameOn_pure _
      -- Only the log, which may be told in between, lies before the end.
      split
      · split
        · refine (sameOn_forM fun entry => ?_).bind fun _ => done
          split
          · exact sameOn_pure ()
          · exact sameOn_note entry
        · exact done
      · exact done
    next cause _ => exact sameOn_throw cause

theorem sameOn_verify (p : Problem) (answer : Answer) : (verify p answer).SameOn host other := by
  cases answer with
  | ok model =>
    rw [verify]
    split
    · exact sameOn_print _
    · exact (sameOn_print _).bind fun _ => sameOn_throw _
  | error failure => exact sameOn_pure ()

theorem sameOn_report (h : options.Reproducible) (path : String) (parseTime : Option Nat) :
    (report G p options (some path) parseTime).SameOn host other := by
  rw [report]
  refine (sameOn_print _).bind fun _ => (sameOn_timedSolve h).bind fun (outcome, solveTime) => ?_
  have result : SameOn host other
      ((resultLines p outcome.answer options.printSolution).forM print) :=
    sameOn_forM sameOn_print
  have tableAndResult : SameOn host other
      (if options.statistics = true then do
        let memory ← memory
        (statistics p outcome ⟨parseTime, solveTime, memory⟩).forM print
        (resultLines p outcome.answer options.printSolution).forM print
      else (resultLines p outcome.answer options.printSolution).forM print) := by
    split
    · exact sameOn_memory.bind fun _ => (sameOn_forM sameOn_print).bind fun _ => result
    · exact result
  dsimp only
  split
  · exact (sameOn_verify p outcome.answer).bind fun _ => tableAndResult
  · exact tableAndResult

theorem sameOn_load (reading : Dimacs.Reading) : (load reading).SameOn host other := by
  rw [load]
  refine (sameOn_forM fun n => sameOn_note _).bind fun _ => ?_
  split
  · exact sameOn_pure _
  · exact sameOn_throw _

/-- What is done about a file is determined by its bytes. -/
theorem sameOn_solveFile (h : options.Reproducible) {path : String}
    (same : other.read path = host.read path) : (solveFile G path options).SameOn host other := by
  have loading : (loadFile path).SameOn host other := by
    rw [loadFile]
    refine (sameOn_read same).bind fun bytes => ?_
    split
    · exact sameOn_load _
    · exact sameOn_throw _
  rw [solveFile]
  exact sameOn_clock.bind fun _ => loading.bind fun _ => sameOn_clock.bind fun _ =>
    sameOn_report h path _

theorem sameOn_solveFiles (h : options.Reproducible) {paths : List String}
    (same : ∀ path ∈ paths, other.read path = host.read path) :
    (solveFiles G paths options).SameOn host other := by
  induction paths with
  | nil => exact sameOn_pure ()
  | cons path paths ih =>
    rw [List.forall_mem_cons] at same
    rw [solveFiles]
    exact (sameOn_solveFile h same.1).bind fun _ => ih same.2

end Task

end Reproducible

/-! ## One file after another -/

/-- The output of solving files one after another, by the outputs of the files: all of them, or
those up to and including the first file that fails, with its error. -/
inductive InTurn (solved : String → List String × Except CommandError Unit) (paths : List String) :
    List String × Except CommandError Unit → Prop where
  | all (succeed : ∀ path ∈ paths, (solved path).2 = .ok ()) :
    InTurn solved paths (paths.flatMap fun path => (solved path).1, .ok ())
  | stopped {before after : List String} {path : String} {cause : CommandError}
    (split : paths = before ++ path :: after) (succeed : ∀ p ∈ before, (solved p).2 = .ok ())
    (failed : (solved path).2 = .error cause) :
    InTurn solved paths ((before ++ [path]).flatMap fun path => (solved path).1, .error cause)

namespace InTurn

variable {solved : String → List String × Except CommandError Unit} {path : String}
  {paths lines more : List String} {result : Except CommandError Unit}

theorem cons_failed {cause : CommandError} (h : solved path = (lines, .error cause)) :
    InTurn solved (path :: paths) (lines, .error cause) := by
  have failed : (solved path).2 = .error cause := congrArg Prod.snd h
  have stopped : InTurn solved (path :: paths) _ :=
    .stopped (List.nil_append _).symm (List.forall_mem_nil _) failed
  simpa [h] using stopped

theorem cons (h : solved path = (lines, .ok ())) (rest : InTurn solved paths (more, result)) :
    InTurn solved (path :: paths) (lines ++ more, result) := by
  have succeeds : (solved path).2 = .ok () := congrArg Prod.snd h
  cases rest with
  | all succeed =>
    have all := all (List.forall_mem_cons.mpr ⟨succeeds, succeed⟩)
    simpa [h] using all
  | stopped split succeed failed =>
    have stopped := stopped (congrArg (path :: ·) split)
      (List.forall_mem_cons.mpr ⟨succeeds, succeed⟩) failed
    simpa [h] using stopped

/-- There is only one place where the first file fails. -/
theorem first_failed_unique {before before' after after' : List String} {path path' : String}
    (split : before ++ path :: after = before' ++ path' :: after')
    (succeed : ∀ p ∈ before, (solved p).2 = .ok ())
    (succeed' : ∀ p ∈ before', (solved p).2 = .ok ())
    (failed : (solved path).2 ≠ .ok ()) (failed' : (solved path').2 ≠ .ok ()) :
    before = before' ∧ path = path' := by
  induction before generalizing before' with
  | nil =>
    cases before' with
    | nil => exact ⟨rfl, List.head_eq_of_cons_eq split⟩
    | cons p before' =>
      have first : path = p := List.head_eq_of_cons_eq split
      exact absurd (succeed' path (first ▸ List.mem_cons_self)) failed
  | cons p before ih =>
    rw [List.forall_mem_cons] at succeed
    cases before' with
    | nil =>
      have first : p = path' := List.head_eq_of_cons_eq split
      exact absurd (first ▸ succeed.1) failed'
    | cons q before' =>
      rw [List.forall_mem_cons] at succeed'
      obtain ⟨rfl, rest⟩ := List.cons_eq_cons.mp split
      obtain ⟨rfl, same⟩ := ih rest succeed.2 succeed'.2
      exact ⟨rfl, same⟩

/-- The outputs of the files determine the output of all. -/
theorem unique {output output' : List String × Except CommandError Unit}
    (h : InTurn solved paths output) (h' : InTurn solved paths output') : output = output' := by
  cases h with
  | all succeed =>
    cases h' with
    | all => rfl
    | stopped split' _ failed' =>
      rw [succeed _ (split' ▸ List.mem_append_cons_self)] at failed'
      cases failed'
  | stopped split succeed failed =>
    cases h' with
    | all succeed' =>
      rw [succeed' _ (split ▸ List.mem_append_cons_self)] at failed
      cases failed
    | stopped split' succeed' failed' =>
      obtain ⟨rfl, rfl⟩ := first_failed_unique (split.symm.trans split') succeed succeed'
        (by simp [failed]) (by simp [failed'])
      cases failed.symm.trans failed'
      rfl

end InTurn

section Sources

variable {G : Type} [SeededSource G]

theorem inTurn_solveFiles (host : Script.Host) (options : Options) (paths : List String) :
    InTurn (fun path => (solveFile G path options).output host) paths
      ((solveFiles G paths options).output host) := by
  induction paths with
  | nil => exact .all (by simp)
  | cons path paths ih =>
    rw [solveFiles, Task.output_bind]
    cases h : (solveFile G path options).output host with
    | mk lines result =>
      cases result with
      | ok u => exact .cons h ih
      | error cause => exact .cons_failed h

/-- The problems of a folder are solved in the order of its routes. -/
theorem output_solvePath {host : Script.Host} {path : String} {folder : Folder Unit}
    (options : Options) (opened : host.list path = some folder) :
    (solvePath G path options).output host =
      (solveFiles G (folder.routes.map (pathOf path)) options).output host := by
  have listed : Task.output host (ExceptT.lift (.list path .done)) = ([], .ok (some folder)) :=
    congrArg (fun found => ([], Except.ok found)) opened
  rw [solvePath, Task.output_bind, listed, ← Folder.problems_eq_map_routes]
  rfl

/-- To solve a folder is to solve its problems one after another: the regular files with the
extension `cnf`, depth first with the entries of every folder by name. The lines are those of the
files up to and including the first that fails, and the error is that of this file. If nothing is
drawn at random without a seed, what is printed about a file depends on its bytes alone, and what is
printed about a folder on its problems and their bytes alone; other files and folders without
problems do not matter. -/
theorem folder_solves_each_file (host : Script.Host) (path : String) (folder : Folder Unit)
    (options : Options) (opened : host.list path = some folder) (distinct : folder.Distinct) :
    (∃ routes : List (List String),
      (∀ route, route ∈ routes ↔ folder.ProblemAt route) ∧ routes.Pairwise Precedes ∧
        InTurn (fun p => (solveFile G p options).output host) (routes.map (pathOf path))
          ((solvePath G path options).output host)) ∧
    (options.Reproducible → ∀ other : Script.Host,
      (∀ p, other.read p = host.read p →
        (solveFile G p options).output other = (solveFile G p options).output host) ∧
      ∀ changed : Folder Unit, other.list path = some changed → changed.Distinct →
        (∀ route, changed.ProblemAt route ↔ folder.ProblemAt route) →
        (∀ route, folder.ProblemAt route →
          other.read (pathOf path route) = host.read (pathOf path route)) →
        (solvePath G path options).output other = (solvePath G path options).output host) := by
  refine ⟨⟨folder.routes, fun route => Folder.mem_routes_iff, Folder.pairwise_routes distinct, ?_⟩,
    fun reproducible other => ⟨fun p same => Task.sameOn_solveFile reproducible same, ?_⟩⟩
  · rw [output_solvePath options opened]
    exact inTurn_solveFiles host options _
  · intro changed reopened distinct' same bytes
    rw [output_solvePath options opened, output_solvePath options reopened,
      Folder.routes_eq_of_problemAt_iff distinct' distinct same]
    apply Task.sameOn_solveFiles reproducible
    intro p hp
    obtain ⟨route, hroute, rfl⟩ := List.mem_map.mp hp
    exact bytes route (Folder.mem_routes_iff.mp hroute)

end Sources

/-- A problem, a file of another kind, and a folder that is named like a problem and holds a problem
and a name that is nothing but an extension. -/
def nested : Folder Unit :=
  .folder "b.cnf" (.file ".cnf" () (.file "c.cnf" () .empty))
    (.file "a.txt" () (.file "a.cnf" () .empty))

/-- The problems of the same folder alone. -/
def nestedProblems : Folder Unit :=
  .file "a.cnf" () (.folder "b.cnf" (.file "c.cnf" () .empty) .empty)

/-- A host with one empty file that can be read. -/
def oneFileHost (entropy : UInt64) (folder : Folder Unit) : Script.Host where
  entropy := entropy
  read := fun path => if path = "d/a.cnf" then .ok [] else .error .notFound
  list := fun _ => some folder

/-- Options of a backtracking search without the table. -/
def terse : Options := { statistics := false }

theorem solve_empty (g : Generator) : solve Problem.empty terse g = .ok ⟨.ok .empty, {}, 1⟩ := by
  have run : Problem.empty.solve (.backtracking {} : Solver Generator) =
      .ok (.ok .empty, .backtracking {}) := by cbv
  have once : attempts Problem.empty (.backtracking {} : Solver Generator) terse.maxTries =
      .ok ⟨.ok .empty, {}, 1⟩ := by
    show attemptsAfter _ _ _ _ 0 = _
    rw [attemptsAfter, run]
    rfl
  have made : terse.strategy.solver terse.solverOptions g = .ok (.backtracking {}) := rfl
  rw [solve, made]
  dsimp only
  rw [once]

theorem output_solveFile_oneFileHost (entropy : UInt64) (folder : Folder Unit) :
    (solveFile Generator "d/a.cnf" terse).output (oneFileHost entropy folder) =
      (["Solving: d/a.cnf", "Verified: true", "", "SATISFIABLE"], .ok ()) := by
  have loaded : (solveFile Generator "d/a.cnf" terse).output (oneFileHost entropy folder) =
      (report Generator Problem.empty terse (some "d/a.cnf") none).output
        (oneFileHost entropy folder) := rfl
  rw [loaded, report]
  dsimp only
  rw [Task.output_bind, Task.output_bind, timedSolve]
  simp only [solve_empty]
  rfl

theorem problemAt_nestedProblems_iff {route : List String} :
    nestedProblems.ProblemAt route ↔ route ∈ [["a.cnf"], ["b.cnf", "c.cnf"]] := by
  have a : HasExtension "cnf" "a.cnf" := ⟨"a", by decide, by decide, rfl⟩
  have c : HasExtension "cnf" "c.cnf" := ⟨"c", by decide, by decide, rfl⟩
  simp [nestedProblems, Folder.problemAt_file_iff, Folder.problemAt_folder_iff,
    Folder.not_problemAt_empty, a, c, eq_comm]

theorem problemAt_nested_iff {route : List String} :
    nested.ProblemAt route ↔ nestedProblems.ProblemAt route := by
  have extensionOnly : ¬ HasExtension "cnf" ".cnf" := by
    rw [← isProblemName_iff, isProblemName_iff_suffix]
    decide
  have otherKind : ¬ HasExtension "cnf" "a.txt" := by
    rw [← isProblemName_iff, isProblemName_iff_suffix]
    decide
  simp only [nested, nestedProblems, Folder.problemAt_file_iff, Folder.problemAt_folder_iff,
    Folder.not_problemAt_empty, extensionOnly, otherKind, and_false, false_or, or_false]
  exact Or.comm

/-- The problem in the folder fails, after the lines of the file beside it are printed. Without the
entries that are no problems, and with other draws, the same is printed. -/
theorem folder_solves_each_file_nested :
    (oneFileHost 0 nested).list "d" = some nested ∧ nested.Distinct ∧
      (solvePath Generator "d" terse).output (oneFileHost 0 nested) =
        (["Solving: d/a.cnf", "Verified: true", "", "SATISFIABLE"],
          .error (.load (.unreadable .notFound))) ∧
      terse.Reproducible ∧ (oneFileHost 1 nestedProblems).list "d" = some nestedProblems ∧
      nestedProblems.Distinct ∧
      (∀ route, nestedProblems.ProblemAt route ↔ nested.ProblemAt route) ∧
      (solvePath Generator "d" terse).output (oneFileHost 1 nestedProblems) =
        (solvePath Generator "d" terse).output (oneFileHost 0 nested) := by
  have distinct : nested.Distinct := by simp [nested, Folder.Distinct, Folder.names]
  have distinct' : nestedProblems.Distinct := by
    simp [nestedProblems, Folder.Distinct, Folder.names]
  have reproducible : terse.Reproducible := .inl rfl
  obtain ⟨⟨routes, members, ordered, inTurn⟩, alike⟩ :=
    folder_solves_each_file (G := Generator) (oneFileHost 0 nested) "d" nested terse rfl distinct
  refine ⟨rfl, distinct, ?_, reproducible, rfl, distinct', fun _ => problemAt_nested_iff.symm,
    (alike reproducible (oneFileHost 1 nestedProblems)).2 nestedProblems rfl distinct'
      (fun _ => problemAt_nested_iff.symm) (fun _ _ => rfl)⟩
  -- The order and the members leave no choice of the routes, nor these of the output.
  have listed : routes = [["a.cnf"], ["b.cnf", "c.cnf"]] := by
    have parted : [["a.cnf"], ["b.cnf", "c.cnf"]].Pairwise Precedes := by
      simpa using Precedes.part (by decide)
    apply eq_of_pairwise_precedes ordered parted
    intro route
    rw [members, problemAt_nested_iff, problemAt_nestedProblems_iff]
  have paths : routes.map (pathOf "d") = ["d/a.cnf", "d/b.cnf/c.cnf"] := by
    have outer : ∀ name, joinPath "d" name = "d" ++ "/" ++ name :=
      joinPath_of_not_suffix (by decide)
    have inner : ∀ name, joinPath "d/b.cnf" name = "d/b.cnf" ++ "/" ++ name :=
      joinPath_of_not_suffix (by decide)
    simp [listed, pathOf, outer, inner]
  have fails : (solveFile Generator "d/b.cnf/c.cnf" terse).output (oneFileHost 0 nested) =
      ([], .error (.load (.unreadable .notFound))) := rfl
  have solved := output_solveFile_oneFileHost 0 nested
  have stopped : InTurn (fun p => (solveFile Generator p terse).output (oneFileHost 0 nested))
      (routes.map (pathOf "d")) _ :=
    .stopped (paths.trans List.singleton_append.symm)
      (List.forall_mem_singleton.mpr (congrArg Prod.snd solved)) (congrArg Prod.snd fails)
  rw [inTurn.unique stopped]
  simp [solved, fails]

end CnfSearch.Command

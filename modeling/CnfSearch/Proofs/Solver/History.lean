import CnfSearch.Proofs.Solver.Refusal
import Mathlib.Data.List.Basic

set_option autoImplicit false

/-!
# Histories of a solver

One solver serves a history of calls: solves, new sources of draws, and readings of its counters.
A refused solve leaves the solver as it was, so that it can be struck from a history
(`serve_filter`). An accepted solve of backtracking depends on nothing that came before
(`solve_backtracking_eq_fresh`), and a walk that gets a new source only keeps the counters of the
last search until the next one is accepted (`serve_alike`). `histories_leave_nothing_stale` puts
these together.
-/

namespace CnfSearch

/-- What can be asked of a solver. -/
inductive Call (G : Type) where
  | solve (cnf : Cnf) (symbols : List Symbol) (distinct : symbols.Nodup)
  | reseed (source : G)
  | counters

/-- What a solver replies. -/
inductive Reply where
  | solved (answer : Answer)
  | reseeded
  | counted (counters : Counters)

/-- The answer of a solve. -/
def Reply.answer? : Reply → Option Answer
  | .solved answer => some answer
  | .reseeded => none
  | .counted _ => none

namespace Call

variable {G : Type}

/-- A solve of clauses that mention an undeclared symbol. -/
def Refused : Call G → Prop
  | .solve cnf symbols _ => ∃ c ∈ cnf, ∃ l ∈ c.literals, l.symbol ∉ symbols
  | .reseed _ => False
  | .counters => False

/-- A solve of clauses that mention declared symbols only. -/
def Accepted : Call G → Prop
  | .solve cnf symbols _ => ∀ c ∈ cnf, ∀ l ∈ c.literals, l.symbol ∈ symbols
  | .reseed _ => False
  | .counters => False

instance (call : Call G) : Decidable call.Refused :=
  match call with
  | .solve cnf symbols _ =>
    inferInstanceAs (Decidable (∃ c ∈ cnf, ∃ l ∈ c.literals, l.symbol ∉ symbols))
  | .reseed _ => .isFalse id
  | .counters => .isFalse id

end Call

/-- The replies to the calls of a history that are not refused. -/
def keptReplies {G : Type} (history : List (Call G)) (replies : List Reply) : List Reply :=
  ((history.zip replies).filter fun p => ¬ p.1.Refused).map Prod.snd

namespace Solver

variable {G : Type} [DrawSource G]

/-- Serve a call. -/
def reply (solver : Solver G) : Call G → Except Fault (Reply × Solver G)
  | .solve cnf symbols _ =>
    (solver.solve cnf symbols).map fun (answer, after) => (.solved answer, after)
  | .reseed source => .ok (.reseeded, solver.withSource source)
  | .counters => .ok (.counted solver.counters, solver)

/-- Serve the calls of a history one after another, up to the first that faults. -/
def serve (solver : Solver G) : List (Call G) → Except Fault (List Reply × Solver G)
  | [] => .ok ([], solver)
  | call :: rest =>
    match solver.reply call with
    | .ok (reply, next) => (next.serve rest).map fun (replies, after) => (reply :: replies, after)
    | .error fault => .error fault

theorem serve_cons {solver next after : Solver G} {call : Call G} {rest : List (Call G)}
    {reply : Reply} {replies : List Reply} (first : solver.reply call = .ok (reply, next))
    (further : next.serve rest = .ok (replies, after)) :
    solver.serve (call :: rest) = .ok (reply :: replies, after) := by
  rw [serve, first]
  dsimp only
  rw [further]
  rfl

/-! ## Refused and accepted calls -/

/-- Clauses with an undeclared symbol have a first one. -/
theorem exists_firstUndeclared {cnf : Cnf} {symbols : List Symbol}
    (undeclared : ∃ c ∈ cnf, ∃ l ∈ c.literals, l.symbol ∉ symbols) :
    ∃ s, Cnf.FirstUndeclared cnf symbols s := by
  cases found : Cnf.firstUndeclared? cnf symbols with
  | some s => exact ⟨s, Cnf.firstUndeclared?_eq_some_iff.mp found⟩
  | none =>
    obtain ⟨c, hc, l, hl, hs⟩ := undeclared
    exact absurd (Cnf.firstUndeclared?_eq_none_iff.mp found c hc l hl) hs

theorem reply_of_solve {solver after : Solver G} {cnf : Cnf} {symbols : List Symbol}
    {answer : Answer} (distinct : symbols.Nodup)
    (h : solver.solve cnf symbols = .ok (answer, after)) :
    solver.reply (.solve cnf symbols distinct) = .ok (.solved answer, after) := by
  rw [reply, h]
  rfl

theorem reply_of_firstUndeclared {cnf : Cnf} {symbols : List Symbol} {s : Symbol}
    (first : Cnf.FirstUndeclared cnf symbols s) (distinct : symbols.Nodup) (solver : Solver G) :
    solver.reply (.solve cnf symbols distinct) = .ok (.solved (.error (.undeclared s)), solver) :=
  reply_of_solve distinct (solver.solve_of_firstUndeclared first)

theorem reply_of_refused {call : Call G} (refused : call.Refused) (solver : Solver G) :
    ∃ reply, solver.reply call = .ok (reply, solver) := by
  cases call with
  | solve cnf symbols distinct =>
    obtain ⟨s, first⟩ := exists_firstUndeclared refused
    exact ⟨_, reply_of_firstUndeclared first distinct solver⟩
  | reseed source => exact refused.elim
  | counters => exact refused.elim

/-- No call faults. -/
theorem exists_reply (solver : Solver G) (call : Call G) :
    ∃ reply next, solver.reply call = .ok (reply, next) := by
  by_cases refused : call.Refused
  · obtain ⟨answer, hreply⟩ := reply_of_refused refused solver
    exact ⟨answer, solver, hreply⟩
  · cases call with
    | solve cnf symbols distinct =>
      have declared : ∀ c ∈ cnf, ∀ l ∈ c.literals, l.symbol ∈ symbols := by
        simpa [Call.Refused] using refused
      obtain ⟨answer, after, hsolve, -⟩ := solver.exists_solve distinct declared
      exact ⟨.solved answer, after, reply_of_solve distinct hsolve⟩
    | reseed source => exact ⟨_, _, rfl⟩
    | counters => exact ⟨_, _, rfl⟩

/-- Without its refused calls a history has the same other replies and leaves the same solver. -/
theorem serve_filter (solver : Solver G) (history : List (Call G)) :
    ∃ replies after, solver.serve history = .ok (replies, after) ∧
      solver.serve (history.filter fun call => ¬ call.Refused) =
        .ok (keptReplies history replies, after) := by
  induction history generalizing solver with
  | nil => exact ⟨[], solver, rfl, rfl⟩
  | cons call rest ih =>
    by_cases refused : call.Refused
    · obtain ⟨answer, first⟩ := reply_of_refused refused solver
      obtain ⟨replies, after, further, filtered⟩ := ih solver
      refine ⟨answer :: replies, after, serve_cons first further, ?_⟩
      rw [List.filter_cons_of_neg (by simpa using refused), filtered, keptReplies, keptReplies,
        List.zip_cons_cons, List.filter_cons_of_neg (by simpa using refused)]
    · obtain ⟨reply, next, first⟩ := solver.exists_reply call
      obtain ⟨replies, after, further, filtered⟩ := ih next
      refine ⟨reply :: replies, after, serve_cons first further, ?_⟩
      rw [List.filter_cons_of_pos (by simpa using refused), serve_cons first filtered, keptReplies,
        keptReplies, List.zip_cons_cons, List.filter_cons_of_pos (by simpa using refused),
        List.map_cons]

/-! ## What a solver keeps -/

/-- Solvers of one strategy, with the same settings. -/
inductive SameStrategy : Solver G → Solver G → Prop where
  | backtracking (counters work : Counters) :
      SameStrategy (.backtracking counters) (.backtracking work)
  | walking {walker after : Walker G} (settings : after.settings = walker.settings) :
      SameStrategy (.walking walker) (.walking after)

omit [DrawSource G] in
theorem SameStrategy.refl (solver : Solver G) : SameStrategy solver solver := by
  cases solver with
  | backtracking counters => exact .backtracking counters counters
  | walking walker => exact .walking rfl

omit [DrawSource G] in
theorem SameStrategy.trans {first second third : Solver G} (h : SameStrategy first second)
    (h' : SameStrategy second third) : SameStrategy first third := by
  cases h with
  | backtracking =>
    cases h'
    exact .backtracking _ _
  | walking settings =>
    cases h' with
    | walking settings' => exact .walking (settings'.trans settings)

omit [DrawSource G] in
theorem sameStrategy_withSource (solver : Solver G) (source : G) :
    SameStrategy solver (solver.withSource source) := by
  cases solver with
  | backtracking counters => exact .backtracking counters counters
  | walking walker => exact .walking rfl

theorem sameStrategy_of_solve {solver after : Solver G} {cnf : Cnf} {symbols : List Symbol}
    {answer : Answer} (h : solver.solve cnf symbols = .ok (answer, after)) :
    SameStrategy solver after := by
  rw [solve.eq_def] at h
  split at h
  · cases h
    exact .refl solver
  · split at h
    · split at h
      · cases h
        exact .backtracking _ _
      · cases h
    · split at h
      · cases h
        exact .walking rfl
      · cases h

theorem sameStrategy_of_reply {solver next : Solver G} {call : Call G} {reply : Reply}
    (h : solver.reply call = .ok (reply, next)) : SameStrategy solver next := by
  cases call with
  | solve cnf symbols distinct =>
    cases hsolve : solver.solve cnf symbols with
    | error fault =>
      rw [Solver.reply, hsolve] at h
      cases h
    | ok result =>
      rw [Solver.reply, hsolve] at h
      cases h
      exact sameStrategy_of_solve hsolve
  | reseed source =>
    cases h
    exact solver.sameStrategy_withSource source
  | counters =>
    cases h
    exact .refl solver

/-- No history faults, and through all of it a solver keeps its strategy and settings. -/
theorem exists_serve (solver : Solver G) (history : List (Call G)) :
    ∃ replies after, solver.serve history = .ok (replies, after) ∧ SameStrategy solver after := by
  induction history generalizing solver with
  | nil => exact ⟨[], solver, rfl, .refl solver⟩
  | cons call rest ih =>
    obtain ⟨reply, next, first⟩ := solver.exists_reply call
    obtain ⟨replies, after, further, same⟩ := ih next
    exact ⟨_, _, serve_cons first further, (sameStrategy_of_reply first).trans same⟩

/-! ## Nothing stale -/

/-- Backtracking searches declared clauses without a look at its counters. -/
theorem solve_backtracking_eq_fresh {cnf : Cnf} {symbols : List Symbol}
    (declared : ∀ c ∈ cnf, ∀ l ∈ c.literals, l.symbol ∈ symbols) (counters : Counters) :
    (Solver.backtracking counters : Solver G).solve cnf symbols =
      (Solver.backtracking {}).solve cnf symbols := by
  simp only [solve, Cnf.firstUndeclared?_eq_none_iff.mpr declared]

end Solver

/-- Walkers that differ at most in the work of their last search. -/
structure Walker.Alike {G : Type} (walker other : Walker G) : Prop where
  settings : walker.settings = other.settings
  source : walker.source = other.source

namespace Solver

variable {G : Type} [DrawSource G] {walker other : Walker G}

/-- Walkers that are alike search declared clauses in the same way, and are the same afterwards. -/
theorem solve_alike {cnf : Cnf} {symbols : List Symbol} (alike : walker.Alike other)
    (declared : ∀ c ∈ cnf, ∀ l ∈ c.literals, l.symbol ∈ symbols) :
    (Solver.walking walker).solve cnf symbols = (Solver.walking other).solve cnf symbols := by
  simp only [solve, Cnf.firstUndeclared?_eq_none_iff.mpr declared, alike.settings, alike.source]

/-- To any call walkers that are alike give the same answer and stay alike, and an accepted solve
makes them the same. -/
theorem reply_alike (alike : walker.Alike other) (call : Call G) :
    ∃ reply next reply' next',
      (Solver.walking walker).reply call = .ok (reply, .walking next) ∧
      (Solver.walking other).reply call = .ok (reply', .walking next') ∧
      reply.answer? = reply'.answer? ∧ next.Alike next' ∧ (call.Accepted → next = next') := by
  cases call with
  | solve cnf symbols distinct =>
    by_cases declared : ∀ c ∈ cnf, ∀ l ∈ c.literals, l.symbol ∈ symbols
    · obtain ⟨answer, after, hsolve, -⟩ := (Solver.walking walker).exists_solve distinct declared
      cases sameStrategy_of_solve hsolve with
      | @walking _ next settings =>
        have hsolve' : (Solver.walking other).solve cnf symbols = .ok (answer, .walking next) :=
          (solve_alike alike declared).symm.trans hsolve
        exact ⟨_, next, _, next, reply_of_solve distinct hsolve, reply_of_solve distinct hsolve',
          rfl, ⟨rfl, rfl⟩, fun _ => rfl⟩
    · have refused : ∃ c ∈ cnf, ∃ l ∈ c.literals, l.symbol ∉ symbols := by
        simpa using declared
      obtain ⟨s, first⟩ := exists_firstUndeclared refused
      exact ⟨_, walker, _, other, reply_of_firstUndeclared first distinct _,
        reply_of_firstUndeclared first distinct _, rfl, alike, (absurd · declared)⟩
  | reseed source =>
    exact ⟨_, { walker with source }, _, { other with source }, rfl, rfl, rfl,
      ⟨alike.settings, rfl⟩, False.elim⟩
  | counters =>
    -- The counters that are read may differ, but they are no answer.
    exact ⟨_, walker, _, other, rfl, rfl, rfl, alike, False.elim⟩

/-- Walkers that are alike give the same answers, and are the same after an accepted solve. -/
theorem serve_alike (alike : walker.Alike other) (history : List (Call G)) :
    ∃ replies after replies' after',
      (Solver.walking walker).serve history = .ok (replies, after) ∧
      (Solver.walking other).serve history = .ok (replies', after') ∧
      replies.filterMap Reply.answer? = replies'.filterMap Reply.answer? ∧
      ((∃ call ∈ history, call.Accepted) → after = after') := by
  induction history generalizing walker other with
  | nil => exact ⟨[], _, [], _, rfl, rfl, rfl, by simp⟩
  | cons call rest ih =>
    obtain ⟨reply, next, reply', next', first, first', answer, alike', same⟩ :=
      reply_alike alike call
    obtain ⟨replies, after, replies', after', further, further', answers, later⟩ := ih alike'
    refine ⟨_, _, _, _, serve_cons first further, serve_cons first' further', ?_, ?_⟩
    · simp only [List.filterMap_cons, answer, answers]
    · intro accepted
      rcases (List.exists_mem_cons_iff _ _ _).mp accepted with now | afterwards
      · -- From here on there is only one walker.
        rw [same now, further'] at further
        cases further
        rfl
      · exact later afterwards

end Solver

/-- Refused solves are invisible: they name the first undeclared symbol and leave the solver, its
counters and its draws as they were, so that a history without them has the same other replies and
the same end. Accepted ones depend on nothing stale: after any history, backtracking does what it
does afresh; and a walk that gets a new source gives, after any history, the answers that a fresh
walk with its settings and that source gives to the same calls, and from the first accepted solve on
it is that walk, in its counters too. -/
theorem histories_leave_nothing_stale {G : Type} [DrawSource G] :
    (∀ (cnf : Cnf) (symbols : List Symbol), (∃ c ∈ cnf, ∃ l ∈ c.literals, l.symbol ∉ symbols) →
      ∃ s, Cnf.FirstUndeclared cnf symbols s ∧
        ∀ solver : Solver G, solver.solve cnf symbols = .ok (.error (.undeclared s), solver)) ∧
    (∀ (solver : Solver G) (history : List (Call G)),
      ∃ replies after, solver.serve history = .ok (replies, after) ∧
        solver.serve (history.filter fun call => ¬ call.Refused) =
          .ok (keptReplies history replies, after)) ∧
    (∀ (counters : Counters) (history : List (Call G)) (cnf : Cnf) (symbols : List Symbol),
      symbols.Nodup → (∀ c ∈ cnf, ∀ l ∈ c.literals, l.symbol ∈ symbols) →
      ∃ replies reached answer after,
        (Solver.backtracking counters).serve history = .ok (replies, reached) ∧
        reached.solve cnf symbols = .ok (answer, after) ∧
        (Solver.backtracking {} : Solver G).solve cnf symbols = .ok (answer, after)) ∧
    ∀ (walker : Walker G) (history : List (Call G)),
      ∃ earlier reached, (Solver.walking walker).serve history = .ok (earlier, reached) ∧
        ∀ (source : G) (later : List (Call G)), ∃ replies after replies' after',
          (reached.withSource source).serve later = .ok (replies, after) ∧
          (Solver.walking ⟨walker.settings, source, {}⟩).serve later = .ok (replies', after') ∧
          replies.filterMap Reply.answer? = replies'.filterMap Reply.answer? ∧
          ((∃ call ∈ later, call.Accepted) → after = after') := by
  refine ⟨fun cnf symbols undeclared => ?_, Solver.serve_filter,
    fun counters history cnf symbols distinct declared => ?_, fun walker history => ?_⟩
  · obtain ⟨s, first⟩ := Solver.exists_firstUndeclared undeclared
    exact ⟨s, first, fun solver => solver.solve_of_firstUndeclared first⟩
  · obtain ⟨replies, reached, served, same⟩ := (Solver.backtracking counters).exists_serve history
    obtain ⟨answer, after, fresh, -⟩ :=
      (Solver.backtracking {} : Solver G).exists_solve distinct declared
    refine ⟨replies, reached, answer, after, served, ?_, fresh⟩
    cases same with
    | backtracking _ work => exact (Solver.solve_backtracking_eq_fresh declared work).trans fresh
  · obtain ⟨earlier, reached, served, same⟩ := (Solver.walking walker).exists_serve history
    refine ⟨earlier, reached, served, fun source later => ?_⟩
    cases same with
    | @walking _ after settings =>
      -- The new source makes the walker that was reached and the fresh one alike.
      have alike : Walker.Alike { after with source } ⟨walker.settings, source, {}⟩ :=
        ⟨settings, rfl⟩
      exact Solver.serve_alike alike later

end CnfSearch

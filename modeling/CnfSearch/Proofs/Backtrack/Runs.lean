import CnfSearch.Proofs.Backtrack.Expansion

set_option autoImplicit false

/-!
# Runs of a search and their states

A run is its first step followed by the run of what that step leads to (`run_of_next`,
`run_of_finish`), and so are the states of a run (`states_of_next`, `states_of_finish`), which
follow one another by steps up to the one that answers (`states_of_run`). A property
that no step breaks holds of every state of a run, and a run whose steps never fail reaches a last
state that answers: `run_of_invariant`. Over declared, distinct symbols it is enough that the
property of the branches that are left, and of the work done, outlives every expansion of the first
of them: `run_of_frontier`.
-/

namespace CnfSearch.Backtrack.Search

section Steps

variable {f : Formula} {s t : Search} {answer : Answer} {counters : Counters} {fault : Fault}

theorem run_of_next (h : s.step f = .ok (.next t)) : s.run f = t.run f := by
  rw [run, h]

theorem run_of_finish (h : s.step f = .ok (.finish answer counters)) :
    s.run f = .ok (answer, counters) := by
  rw [run, h]

theorem run_of_error (h : s.step f = .error fault) : s.run f = .error fault := by
  rw [run, h]

theorem states_of_next (h : s.step f = .ok (.next t)) : s.states f = s :: t.states f := by
  rw [states, h]

theorem states_of_finish (h : s.step f = .ok (.finish answer counters)) : s.states f = [s] := by
  rw [states, h]

/-- A state whose step finishes is the last one of a run. -/
theorem getLast?_states_of_finish {r : Search} (reached : r ∈ s.states f)
    (finishes : r.step f = .ok (.finish answer counters)) :
    (s.states f).getLast? = some r := by
  induction s using Search.run.induct f with
  | case1 s t hstep ih =>
    rw [states_of_next hstep] at reached ⊢
    rcases List.mem_cons.mp reached with rfl | later
    · rw [hstep] at finishes
      cases finishes
    · rw [List.getLast?_cons, ih later]
      rfl
  | case2 s answer counters hstep =>
    rw [states_of_finish hstep] at reached ⊢
    rw [List.mem_singleton.mp reached]
    rfl
  | case3 s fault hstep =>
    rw [states, hstep] at reached
    rw [List.mem_singleton.mp reached, hstep] at finishes
    cases finishes

/-- A run that answers takes the step of each of its states to the next one, and the step of the
last state gives the answer. -/
theorem states_of_run (h : s.run f = .ok (answer, counters)) :
    (s.states f).head? = some s ∧
      (s.states f).IsChain (fun r t => r.step f = .ok (.next t)) ∧
      ∃ last, (s.states f).getLast? = some last ∧
        last.step f = .ok (.finish answer counters) := by
  induction s using Search.run.induct f with
  | case1 s t hstep ih =>
    rw [run_of_next hstep] at h
    obtain ⟨first, chain, last, hlast, finishes⟩ := ih h
    obtain ⟨later, hlater⟩ := List.head?_eq_some_iff.mp first
    rw [hlater] at chain hlast
    rw [states_of_next hstep, hlater]
    refine ⟨rfl, .cons_cons hstep chain, last, ?_, finishes⟩
    rw [List.getLast?_cons_cons, hlast]
  | case2 s _ _ hstep =>
    rw [run_of_finish hstep] at h
    cases h
    rw [states_of_finish hstep]
    exact ⟨rfl, .singleton s, s, rfl, hstep⟩
  | case3 s fault hstep =>
    rw [run_of_error hstep] at h
    cases h

/-- If every step from an invariant state goes on to an invariant state or finishes as required,
then all states of a run are invariant and its last one finishes as required. -/
theorem run_of_invariant {P : Search → Prop} {Q : Search → Answer → Counters → Prop}
    (kept : ∀ s, P s → (∃ t, s.step f = .ok (.next t) ∧ P t) ∨
      ∃ answer counters, s.step f = .ok (.finish answer counters) ∧ Q s answer counters)
    (s : Search) (h : P s) :
    (∀ r ∈ s.states f, P r) ∧ ∃ r ∈ s.states f, ∃ answer counters,
      s.run f = .ok (answer, counters) ∧ Q r answer counters := by
  have step := kept s h
  -- The induction is on the steps of the run; `step` says which of them is made.
  induction s using Search.run.induct f with
  | case1 s t hstep ih =>
    rcases step with ⟨t', ht', next⟩ | ⟨answer, counters, hfinish, -⟩
    · obtain rfl : t = t' := by
        rw [hstep] at ht'
        cases ht'
        rfl
      obtain ⟨all, r, hr, answer, counters, hrun, post⟩ := ih next (kept t next)
      rw [states_of_next hstep, run_of_next hstep]
      refine ⟨?_, r, List.mem_cons_of_mem s hr, answer, counters, hrun, post⟩
      intro q hq
      rcases List.mem_cons.mp hq with rfl | hq
      · exact h
      · exact all q hq
    · rw [hstep] at hfinish
      cases hfinish
  | case2 s answer counters hstep =>
    rcases step with ⟨t', ht', -⟩ | ⟨answer', counters', hfinish, post⟩
    · rw [hstep] at ht'
      cases ht'
    · rw [hstep] at hfinish
      cases hfinish
      rw [states_of_finish hstep, run_of_finish hstep]
      refine ⟨?_, s, List.mem_singleton_self s, answer, counters, rfl, post⟩
      intro q hq
      rw [List.mem_singleton] at hq
      exact hq ▸ h
  | case3 s fault hstep =>
    rcases step with ⟨t', ht', -⟩ | ⟨answer', counters', hfinish, -⟩
    · rw [hstep] at ht'
      cases ht'
    · rw [hstep] at hfinish
      cases hfinish

end Steps

/-- The two ends of a search: its current branch is completed to a model, or no branch is left. -/
inductive Ends (f : Formula) (P : List Branch → Counters → Prop) (s : Search) :
    Answer → Counters → Prop where
  | model {m : Assignment} (satisfied : Cnf.allSatisfied f.clauses s.current.model = true)
      (completed : s.current.complete = .ok m) : Ends f P s (.ok m) s.counters
  | exhausted {counters : Counters} (left : P [] counters) :
      Ends f P s (.error .unsatisfiable) counters

/-- What holds of the branches of the last state holds of those that a search leaves. -/
theorem Ends.exists_left {f : Formula} {P : List Branch → Counters → Prop} {s : Search}
    {answer : Answer} {counters : Counters} (ends : s.Ends f P answer counters)
    (h : P (s.current :: s.pending) s.counters) : ∃ branches, P branches counters := by
  cases ends with
  | model => exact ⟨_, h⟩
  | exhausted left => exact ⟨_, left⟩

/-- A property of the branches that are left and of the work so far holds along a whole run if
replacing the first branch by its children keeps it. -/
theorem run_of_frontier {f : Formula} {symbols : List Symbol} (distinct : symbols.Nodup)
    (declared : ∀ c ∈ f.clauses, ∀ l ∈ c.literals, l.symbol ∈ symbols)
    {P : List Branch → Counters → Prop}
    (splits : ∀ b rest counters, P (b :: rest) counters → b.Splits symbols)
    (expand : ∀ b rest counters children work, P (b :: rest) counters →
      b.Expands f children work → P (children ++ rest) (counters + work))
    (s : Search) (h : P (s.current :: s.pending) s.counters) :
    (∀ r ∈ s.states f, P (r.current :: r.pending) r.counters) ∧
      ∃ r ∈ s.states f, ∃ answer counters,
        s.run f = .ok (answer, counters) ∧ r.Ends f P answer counters := by
  refine run_of_invariant (P := fun r => P (r.current :: r.pending) r.counters) ?_ s h
  intro s h
  rcases step_spec declared distinct (splits _ _ _ h) with
    ⟨model, satisfied, completed, hstep⟩ | ⟨children, work, hexp, hstep⟩
  · exact Or.inr ⟨_, _, hstep, .model satisfied completed⟩
  · have hleft := expand _ _ _ _ _ h hexp
    rw [hstep]
    -- The search goes on with the first of the branches that are left.
    cases hbranches : children ++ s.pending with
    | nil =>
      rw [hbranches] at hleft
      exact Or.inr ⟨_, _, rfl, .exhausted hleft⟩
    | cons b rest =>
      rw [hbranches] at hleft
      exact Or.inl ⟨_, rfl, hleft⟩

end CnfSearch.Backtrack.Search

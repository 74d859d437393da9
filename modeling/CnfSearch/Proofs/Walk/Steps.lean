import CnfSearch.Proofs.Problem.Models
import CnfSearch.Proofs.Walk.Choice
import CnfSearch.Proofs.Walk.Draws

set_option autoImplicit false

/-!
# The steps of a walk

A step takes the first falsified clause and one of its literals, which is false, and turns its
symbol around. That satisfies every clause with the literal and does nothing to a clause without its
symbol (`Repairs`, `repairs_flip`). The states of a walk are joined by such steps from its start to
its end (`State.isChain_states`, `State.states_of_run`), and each of them assigns the symbols in the
order in which they are listed (`State.OnCourse.of_mem_states`): `walking_repairs_clauses`.
-/

namespace CnfSearch

namespace Walk

/-- The symbol of a literal of the first falsified clause is turned around, and of the clauses only
those that mention it can change. -/
structure Repairs (cnf : Cnf) (c : Clause) (l : Literal) (a b : Assignment) : Prop where
  first : ∃ before after, cnf = before ++ c :: after ∧
    (∀ k ∈ c.literals, a.eval? k = some false) ∧
      ∀ d ∈ before, ∃ k ∈ d.literals, a.eval? k ≠ some false
  chosen : l ∈ c.literals
  turned : ∃ value, a.value? l.symbol = some value ∧ b.value? l.symbol = some (!value)
  others : ∀ s, s ≠ l.symbol → b.value? s = a.value? s
  satisfied : ∀ d : Clause, l ∈ d.literals → d.isSatisfied b = true
  unchanged : ∀ d : Clause, (∀ k ∈ d.literals, k.symbol ≠ l.symbol) →
    d.isSatisfied b = d.isSatisfied a ∧ d.isFalsified b = d.isFalsified a

section Flip

variable {cnf : Cnf} {a b : Assignment} {c : Clause} {l : Literal}

theorem Repairs.mem (h : Repairs cnf c l a b) : c ∈ cnf := by
  obtain ⟨before, after, rfl, -, -⟩ := h.first
  exact List.mem_append_right before List.mem_cons_self

/-- The first falsified clause, in terms of the values of its literals. -/
theorem split_of_firstFalsified (first : Cnf.firstFalsified? cnf a = some c) :
    ∃ before after, cnf = before ++ c :: after ∧ (∀ k ∈ c.literals, a.eval? k = some false) ∧
      ∀ d ∈ before, ∃ k ∈ d.literals, a.eval? k ≠ some false := by
  obtain ⟨falsified, before, after, split, earlier⟩ := List.find?_eq_some_iff_append.mp first
  have falsified_iff : ∀ d : Clause,
      d.isFalsified a = true ↔ ∀ k ∈ d.literals, a.eval? k = some false := by
    intro d
    simp only [Clause.isFalsified, Assignment.refutes, List.all_eq_true, beq_iff_eq]
  refine ⟨before, after, split, (falsified_iff c).mp falsified, fun d hd => ?_⟩
  have unfalsified : ¬ ∀ k ∈ d.literals, a.eval? k = some false := by
    rw [← falsified_iff, Bool.not_eq_true]
    simpa using earlier d hd
  push Not at unfalsified
  exact unfalsified

/-- A literal of a falsified clause becomes true when its symbol is flipped. -/
theorem mem_toList_flip (falsified : c.isFalsified a = true) (hl : l ∈ c.literals) :
    l ∈ (a.flip l.symbol).toList := by
  have opposed : l.opposite ∈ a.toList := Clause.isFalsified_iff.mp falsified l hl
  rw [Assignment.toList_flip]
  exact List.mem_map.mpr ⟨l.opposite, opposed, by simp⟩

/-- To flip the symbol of a literal of the first falsified clause is to repair it. -/
theorem repairs_flip (first : Cnf.firstFalsified? cnf a = some c) (hl : l ∈ c.literals) :
    Repairs cnf c l a (a.flip l.symbol) := by
  have falsified : c.isFalsified a = true := List.find?_some first
  have others : ∀ s, s ≠ l.symbol → (a.flip l.symbol).value? s = a.value? s := by
    intro s other
    rw [Assignment.value?_flip, if_neg other]
  refine ⟨split_of_firstFalsified first, hl, ⟨!l.positive, ?_, ?_⟩, others, ?_, ?_⟩
  · exact Assignment.value?_of_mem (Clause.isFalsified_iff.mp falsified l hl)
  · rw [Bool.not_not]
    exact Assignment.value?_of_mem (mem_toList_flip falsified hl)
  · intro d hd
    exact Clause.isSatisfied_iff.mpr ⟨l, hd, mem_toList_flip falsified hl⟩
  · intro d without
    have same : ∀ k ∈ d.literals, (a.flip l.symbol).value? k.symbol = a.value? k.symbol :=
      fun k hk => others k.symbol (without k hk)
    exact ⟨Clause.isSatisfied_eq_of_values same, Clause.isFalsified_eq_of_values same⟩

end Flip

variable {G : Type} [DrawSource G]

/-- A step of a walk: the draws choose a literal, at random or as the most frequent one, and its
flip repairs the first falsified clause. -/
inductive Step (f : Formula) (noise : Noise) : State G → State G → Prop where
  | repair {s : State G} {c : Clause} {choice : Choice} {source : G}
      (drawn : choose f noise c s.source = (choice, source))
      (repairs : Repairs f.clauses c choice.literal s.model (s.flip choice source).model) :
      Step f noise s (s.flip choice source)

theorem step_repair {f : Formula} {s : State G} {c : Clause}
    (first : Cnf.firstFalsified? f.clauses s.model = some c) (noise : Noise) :
    Step f noise s (s.repair f noise c) :=
  .repair rfl (repairs_flip first (choose_literal_mem f noise c s.source))

namespace State

variable {f : Formula} {settings : Settings} {s : State G}

/-- The states of a walk begin with the one from which it starts. -/
theorem exists_states_cons (f : Formula) (settings : Settings) (s : State G) (budget : Nat) :
    ∃ later, s.states f settings budget = s :: later := by
  cases budget with
  | zero => exact ⟨[], rfl⟩
  | succ budget =>
    rw [states]
    split
    · exact ⟨[], rfl⟩
    · split
      · exact ⟨[], rfl⟩
      · exact ⟨_, rfl⟩

/-- From one state of a walk to the next leads a step. -/
theorem isChain_states (f : Formula) (settings : Settings) (s : State G) (budget : Nat) :
    (s.states f settings budget).IsChain (Step f settings.noise) := by
  induction budget generalizing s with
  | zero => exact .singleton s
  | succ budget ih =>
    rw [states]
    split
    · exact .singleton s
    · split
      next => exact .singleton s
      next c first =>
        have further := ih (s.repair f settings.noise c)
        obtain ⟨later, hlater⟩ :=
          exists_states_cons f settings (s.repair f settings.noise c) budget
        rw [hlater] at further ⊢
        exact .cons_cons (step_repair first settings.noise) further

/-- Every state of a walk is on course if it starts on course. -/
theorem OnCourse.of_mem_states {symbols : List Symbol} (h : s.OnCourse symbols) {budget : Nat}
    {t : State G} (ht : t ∈ s.states f settings budget) : t.OnCourse symbols := by
  induction budget generalizing s with
  | zero => exact List.mem_singleton.mp ht ▸ h
  | succ budget ih =>
    rw [states] at ht
    split at ht
    · exact List.mem_singleton.mp ht ▸ h
    · split at ht
      · exact List.mem_singleton.mp ht ▸ h
      · rcases List.mem_cons.mp ht with rfl | later
        · exact h
        · exact ih (h.flip _ _) later

/-- A run ends in the last state of the walk, with the assignment of that state if it has a model to
show, and has counted one step between any two states. -/
theorem states_of_run {budget : Nat} {answer : Answer} {t : State G}
    (h : s.run f settings budget = .ok (answer, t)) :
    (s.states f settings budget).getLast? = some t ∧
      (s.states f settings budget).length + s.counters.steps = t.counters.steps + 1 ∧
      ∀ model, answer = .ok model → model = t.model := by
  induction budget generalizing s with
  | zero =>
    cases h
    refine ⟨rfl, Nat.add_comm _ _, ?_⟩
    rintro model ⟨⟩
  | succ budget ih =>
    rw [run] at h
    rw [states]
    split at h
    next satisfied =>
      cases h
      rw [if_pos satisfied]
      refine ⟨rfl, Nat.add_comm _ _, ?_⟩
      rintro model ⟨⟩
      rfl
    next unsatisfied =>
      rw [if_neg unsatisfied]
      split at h
      next => cases h
      next c first =>
        obtain ⟨last, length, shown⟩ := ih h
        refine ⟨?_, ?_, shown⟩
        · rw [List.getLast?_cons, last, Option.getD_some]
        · rw [steps_repair] at length
          rw [List.length_cons]
          omega

end State

end Walk

/-- A walk visits states that all assign exactly the symbols, in the order in which they are listed,
and gets from each to the next by repairing the first clause whose literals are all false: it turns
around the symbol of one of its literals and no other one, which satisfies every clause with that
literal and keeps the value of every clause without its symbol. The walk ends in the last of these
states, and a model is the assignment of that state, so that for a problem over these symbols it is
written in one way. -/
theorem walking_repairs_clauses {G : Type} [DrawSource G] (walker : Walker G) (cnf : Cnf)
    (symbols : List Symbol) (distinct : symbols.Nodup)
    (declared : ∀ c ∈ cnf, ∀ l ∈ c.literals, l.symbol ∈ symbols) :
    ∃ s visited, Walk.start symbols walker.source = .ok s ∧
      s.states (.ofCnf cnf) walker.settings walker.settings.maxSteps = visited ∧
      (∀ t ∈ visited, t.model.toList.map Literal.symbol = symbols) ∧
      visited.IsChain (Walk.Step (.ofCnf cnf) walker.settings.noise) ∧
      ∃ answer left last,
        (Solver.walking walker).solve cnf symbols = .ok (answer, .walking left) ∧
        visited.getLast? = some last ∧ visited.length = left.counters.steps + 1 ∧
        ∀ model, answer = .ok model →
          model = last.model ∧ model.toList.map Literal.symbol = symbols ∧
            ∀ p : Problem, p.symbols = symbols → model.text = p.formatModel model := by
  obtain ⟨s, started, onCourse, fresh⟩ := Walk.start_onCourse distinct walker.source
  obtain ⟨answer, t, searched, arrived, -⟩ :=
    Walk.search_ends walker.settings walker.source distinct declared
  have hrun : s.run (.ofCnf cnf) walker.settings walker.settings.maxSteps = .ok (answer, t) := by
    rw [← searched, Walk.search, started]
  obtain ⟨last, length, shown⟩ := Walk.State.states_of_run hrun
  refine ⟨s, _, started, rfl, ?_, ?_, answer, _, t, Solver.solve_walking declared searched, last,
    ?_, ?_⟩
  · exact fun u hu => (onCourse.of_mem_states hu).assigns
  · exact Walk.State.isChain_states _ _ s _
  · rw [fresh] at length
    exact length
  · rintro model rfl
    obtain rfl := shown model rfl
    exact ⟨rfl, arrived.assigns, fun p hp =>
      (Problem.formatModel_eq_text (arrived.assigns.trans hp.symm)).symm⟩

/-- A clause that repeats a literal. -/
def repeatedLiteral : Cnf :=
  [⟨[⟨"x", true⟩, ⟨"x", true⟩, ⟨"y", false⟩], List.cons_ne_nil _ _⟩]

/-- A walk that starts with given values. -/
def drawnWalker : Walker Draws := ⟨⟨⟨0.25, by decide⟩, 3⟩, ⟨[false, true], [1]⟩, {}⟩

/-- From values that make all its literals false, one step satisfies the clause. -/
theorem walking_repairs_clauses_repeatedLiteral :
    ["x", "y"].Nodup ∧ (∀ c ∈ repeatedLiteral, ∀ l ∈ c.literals, l.symbol ∈ ["x", "y"]) ∧
      ∃ s t later, Walk.start ["x", "y"] drawnWalker.source = .ok s ∧
        s.model.toList = [⟨"x", false⟩, ⟨"y", true⟩] ∧
        s.states (.ofCnf repeatedLiteral) drawnWalker.settings 3 = s :: t :: later ∧
        t.model.toList.map Literal.symbol = ["x", "y"] ∧
        Cnf.allSatisfied repeatedLiteral t.model = true := by
  have distinct : ["x", "y"].Nodup := by decide
  have declared : ∀ c ∈ repeatedLiteral, ∀ l ∈ c.literals, l.symbol ∈ ["x", "y"] := by decide
  obtain ⟨s, started, drawn, onCourse, -⟩ := Walk.exists_start distinct drawnWalker.source
  obtain ⟨s', visited, started', visits, ordered, chain, -⟩ :=
    walking_repairs_clauses drawnWalker repeatedLiteral ["x", "y"] distinct declared
  obtain rfl := Except.ok.inj (started.symm.trans started')
  have unsatisfied : Cnf.allSatisfied repeatedLiteral s.model = false := by
    rw [← Bool.not_eq_true, Cnf.allSatisfied_iff, drawn]
    decide
  obtain ⟨c, first⟩ := onCourse.exists_falsified declared unsatisfied
  obtain ⟨t, later, rfl⟩ : ∃ t later, visited = s :: t :: later := by
    have repaired := Walk.State.states_of_firstFalsified (f := .ofCnf repeatedLiteral) first
      drawnWalker.settings 2
    obtain ⟨later, hlater⟩ := Walk.State.exists_states_cons (.ofCnf repeatedLiteral)
      drawnWalker.settings (s.repair (.ofCnf repeatedLiteral) drawnWalker.settings.noise c) 2
    rw [hlater] at repaired
    exact ⟨_, later, visits.symm.trans repaired⟩
  refine ⟨distinct, declared, s, t, later, started, drawn, visits, ordered t (by simp), ?_⟩
  cases (List.isChain_cons_cons.mp chain).1 with
  | @repair e _ _ drawn repairs =>
    -- The list has one clause, so it is the one that is repaired.
    have listed : e ∈ repeatedLiteral := repairs.mem
    rw [Cnf.allSatisfied, List.all_eq_true]
    intro d hd
    rw [List.mem_singleton.mp hd, ← List.mem_singleton.mp listed]
    exact repairs.satisfied e repairs.chosen

end CnfSearch

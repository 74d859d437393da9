import CnfSearch.Proofs.Model.Values
import CnfSearch.Proofs.Walk.Draws

set_option autoImplicit false

/-!
# What random moves can reach

A random move may flip any literal of the first falsified clause (`RandomMoves`). All literals of
that clause are false and a model makes one of them true, so one of its flips gives a symbol the
value that the model gives it (`exists_pick`), and the number of symbols on which the assignment
differs from the model goes down (`Assignment.distance_flip`). Hence from every assignment of the
symbols some sequence of moves leads to a model, and every walk with noise can make these moves
(`RandomMoves.run`): `random_moves_reach_model`.
-/

namespace CnfSearch

/-! ## The distance to a model -/

/-- The number of symbols of a list that two assignments do not give the same value. -/
def Assignment.distance (a b : Assignment) (symbols : List Symbol) : Nat :=
  symbols.countP fun s => a.value? s != b.value? s

/-- A flip towards another assignment takes away what its symbol adds to the distance. -/
theorem Assignment.distance_flip {a b : Assignment} {s : Symbol} {value : Bool}
    (ha : a.value? s = some (!value)) (hb : b.value? s = some value) (symbols : List Symbol) :
    (a.flip s).distance b symbols + symbols.count s = a.distance b symbols := by
  induction symbols with
  | nil => rfl
  | cons t symbols ih =>
    rw [distance, distance] at ih ⊢
    rw [List.countP_cons, List.countP_cons, List.count_cons]
    by_cases same : t = s
    · subst same
      have apart : (a.value? t != b.value? t) = true := by simp [ha, hb]
      have joined : ((a.flip t).value? t != b.value? t) = false := by simp [value?_flip, ha, hb]
      rw [apart, joined, beq_self_eq_true, if_pos rfl, if_neg Bool.false_ne_true]
      omega
    · have kept : (a.flip s).value? t = a.value? t := by rw [value?_flip, if_neg same]
      rw [kept, beq_false_of_ne same, if_neg Bool.false_ne_true]
      omega

/-- The distance between the values of two valuations. -/
theorem Assignment.distance_of_valuation {a b : Assignment} {v w : Valuation}
    {symbols : List Symbol} (ha : a.toList = v.literals symbols)
    (hb : b.toList = w.literals symbols) :
    a.distance b symbols = symbols.countP fun s => v s != w s := by
  apply List.countP_congr
  intro s hs
  rw [value?_of_valuation ha hs, value?_of_valuation hb hs]
  simp

namespace Walk

/-! ## Sequences of moves -/

/-- Flips of literals of the first falsified clause, given by their positions in it. -/
inductive RandomMoves (cnf : Cnf) : Assignment → List Nat → Assignment → Prop where
  | none (a : Assignment) : RandomMoves cnf a [] a
  | cons {a last : Assignment} {c : Clause} {picks : List Nat}
      (first : Cnf.firstFalsified? cnf a = some c) (i : Fin c.length)
      (later : RandomMoves cnf (a.flip (c.get i).symbol) picks last) :
      RandomMoves cnf a (i :: picks) last

section Moves

variable {cnf : Cnf} {symbols : List Symbol} {a goal : Assignment} {c : Clause}

/-- A falsified clause has a literal that a model makes true. -/
theorem exists_pick (first : Cnf.firstFalsified? cnf a = some c)
    (satisfied : Cnf.allSatisfied cnf goal = true) : ∃ (i : Fin c.length) (value : Bool),
      a.value? (c.get i).symbol = some (!value) ∧ goal.value? (c.get i).symbol = some value := by
  obtain ⟨l, hl, held⟩ := Cnf.allSatisfied_iff.mp satisfied c (List.mem_of_find?_eq_some first)
  have refuted := Clause.isFalsified_iff.mp (List.find?_some first) l hl
  obtain ⟨i, rfl⟩ := List.get_of_mem hl
  exact ⟨i, (c.get i).positive, Assignment.value?_of_mem refuted, Assignment.value?_of_mem held⟩

/-- From any assignment of the symbols, as many moves as symbols differ from a model suffice. -/
theorem exists_randomMoves (declared : ∀ c ∈ cnf, ∀ l ∈ c.literals, l.symbol ∈ symbols)
    (satisfied : Cnf.allSatisfied cnf goal = true) (a : Assignment)
    (total : ∀ s ∈ symbols, s ∈ a.symbols) : ∃ picks last, RandomMoves cnf a picks last ∧
      picks.length ≤ a.distance goal symbols ∧ Cnf.allSatisfied cnf last = true := by
  -- Every move brings the assignment closer to the model.
  induction hdistance : a.distance goal symbols using Nat.strongRecOn generalizing a with
  | ind distance ih =>
    subst hdistance
    cases here : Cnf.allSatisfied cnf a with
    | true => exact ⟨[], a, .none a, Nat.zero_le _, here⟩
    | false =>
      have assigned : ∀ c ∈ cnf, ∀ l ∈ c.literals, l.symbol ∈ a.symbols :=
        fun c hc l hl => total _ (declared c hc l hl)
      obtain ⟨c, first⟩ := Cnf.exists_firstFalsified assigned here
      obtain ⟨i, value, before, wanted⟩ := exists_pick first satisfied
      have closer := Assignment.distance_flip before wanted symbols
      have hsymbol : (c.get i).symbol ∈ symbols :=
        declared c (List.mem_of_find?_eq_some first) _ (c.get_mem i)
      have counted := List.count_pos_iff.mpr hsymbol
      obtain ⟨picks, last, moves, length, found⟩ := ih _ (by omega) (a.flip (c.get i).symbol)
        (by rwa [Assignment.symbols_flip]) rfl
      refine ⟨i :: picks, last, .cons first i moves, ?_, found⟩
      rw [List.length_cons]
      omega

/-- With noise, a step takes the literal at the next position that is drawn. -/
theorem State.run_draws {f : Formula} {settings : Settings} (noisy : 0 < settings.noise.value)
    (first : Cnf.firstFalsified? f.clauses a = some c) (i : Fin c.length) (coins : List Bool)
    (picks : List Nat) (counters : Counters) (budget : Nat) :
    State.run f settings ⟨a, (⟨coins, i :: picks⟩ : Draws), counters⟩ (budget + 1) =
      State.run f settings ⟨a.flip (c.get i).symbol, (⟨coins, picks⟩ : Draws),
        { counters with
          steps := counters.steps + 1
          randomFlips := counters.randomFlips + 1 }⟩ budget := by
  rw [State.run_of_firstFalsified (s := (⟨a, ⟨coins, i :: picks⟩, counters⟩ : State Draws)) first,
    State.repair, choose_draws f noisy]
  rfl

/-- A walk with noise that draws these positions makes these moves. -/
theorem RandomMoves.run {f : Formula} {last : Assignment} {picks : List Nat}
    (moves : RandomMoves f.clauses a picks last)
    (found : Cnf.allSatisfied f.clauses last = true) {settings : Settings}
    (noisy : 0 < settings.noise.value) {budget : Nat} (within : picks.length < budget)
    (coins : List Bool) (counters : Counters) : ∃ t,
      State.run f settings ⟨a, (⟨coins, picks⟩ : Draws), counters⟩ budget = .ok (.ok last, t) ∧
        t.counters.steps = counters.steps + picks.length := by
  induction moves generalizing budget counters with
  | none a =>
    obtain ⟨budget, rfl⟩ : ∃ rest, budget = rest + 1 := ⟨budget - 1, by omega⟩
    refine ⟨⟨a, ⟨coins, []⟩, counters⟩, ?_, rfl⟩
    rw [State.run, if_pos found]
  | cons first i later ih =>
    rw [List.length_cons] at within ⊢
    obtain ⟨budget, rfl⟩ : ∃ rest, budget = rest + 1 := ⟨budget - 1, by omega⟩
    rw [State.run_draws noisy first]
    obtain ⟨t, hrun, hsteps⟩ := ih found (Nat.lt_of_succ_lt_succ within) _
    refine ⟨t, hrun, hsteps.trans ?_⟩
    dsimp only
    omega

end Moves

end Walk

/-- From any assignment of the symbols random moves lead to a model, and no more of them than there
are symbols on which the assignment differs from a given model. So a walk with noise over clauses
that have a model can find one from any values that it starts with, in no more steps than these are
apart from the model. -/
theorem random_moves_reach_model {cnf : Cnf} {symbols : List Symbol} (distinct : symbols.Nodup)
    (declared : ∀ c ∈ cnf, ∀ l ∈ c.literals, l.symbol ∈ symbols) :
    (∀ start goal : Assignment, (∀ s ∈ symbols, s ∈ start.symbols) →
      Cnf.allSatisfied cnf goal = true →
        ∃ picks last, Walk.RandomMoves cnf start picks last ∧
          picks.length ≤ start.distance goal symbols ∧ Cnf.allSatisfied cnf last = true) ∧
    ∀ (v w : Valuation) (settings : Walk.Settings), Cnf.eval w cnf = true →
      0 < settings.noise.value → (symbols.countP fun x => v x != w x) < settings.maxSteps →
        ∃ s picks model left,
          Walk.start symbols (⟨symbols.map v, picks⟩ : Draws) = .ok s ∧
          s.model.toList = v.literals symbols ∧
          (Solver.walking ⟨settings, (⟨symbols.map v, picks⟩ : Draws), {}⟩).solve cnf symbols =
            .ok (.ok model, .walking left) ∧
          left.counters.steps ≤ symbols.countP fun x => v x != w x := by
  constructor
  · intro start goal total satisfied
    exact Walk.exists_randomMoves declared satisfied start total
  · intro v w settings hw noisy within
    obtain ⟨goal, -, wanted⟩ := Assignment.exists_of_valuation distinct w
    obtain ⟨start, drawn, values⟩ := Assignment.exists_of_valuation distinct v
    have total : ∀ s ∈ symbols, s ∈ start.symbols := by
      intro s hs
      rwa [Assignment.symbols_of_valuation values]
    obtain ⟨picks, last, moves, few, found⟩ := Walk.exists_randomMoves declared
      (Cnf.allSatisfied_of_valuation declared wanted hw) start total
    rw [Assignment.distance_of_valuation values wanted] at few
    have started := Walk.start_draws drawn picks
    obtain ⟨t, hrun, hsteps⟩ := Walk.RandomMoves.run (f := .ofCnf cnf) moves found noisy
      (Nat.lt_of_le_of_lt few within) [] {}
    have searched : Walk.search settings cnf symbols (⟨symbols.map v, picks⟩ : Draws) =
        .ok (.ok last, t) := by
      rw [Walk.search, started]
      exact hrun
    refine ⟨_, picks, last, _, started, values, Solver.solve_walking declared searched, ?_⟩
    calc t.counters.steps = picks.length := hsteps.trans (Nat.zero_add _)
      _ ≤ _ := few

/-- The first symbol is true and not both are. -/
def firstAlone : Cnf :=
  [⟨[⟨"x", true⟩], List.cons_ne_nil _ _⟩, ⟨[⟨"x", false⟩, ⟨"y", false⟩], List.cons_ne_nil _ _⟩]

/-- Two moves at most lead from the opposite of its only model to a model, also in a walk. -/
theorem random_moves_reach_model_firstAlone :
    ["x", "y"].Nodup ∧ (∀ c ∈ firstAlone, ∀ l ∈ c.literals, l.symbol ∈ ["x", "y"]) ∧
      (∃ start goal : Assignment, start.toList = [⟨"x", false⟩, ⟨"y", true⟩] ∧
        goal.toList = [⟨"x", true⟩, ⟨"y", false⟩] ∧ Cnf.allSatisfied firstAlone goal = true ∧
        ∃ picks last, Walk.RandomMoves firstAlone start picks last ∧ picks.length ≤ 2 ∧
          Cnf.allSatisfied firstAlone last = true) ∧
      ∃ picks model left,
        (Solver.walking ⟨⟨⟨0.5, by decide⟩, 3⟩, (⟨[false, true], picks⟩ : Draws), {}⟩).solve
          firstAlone ["x", "y"] = .ok (.ok model, .walking left) ∧ left.counters.steps ≤ 2 := by
  have distinct : ["x", "y"].Nodup := by decide
  have declared : ∀ c ∈ firstAlone, ∀ l ∈ c.literals, l.symbol ∈ ["x", "y"] := by decide
  have only : Cnf.eval (fun s => s == "x") firstAlone = true := by decide
  obtain ⟨start, -, values⟩ := Assignment.exists_of_valuation distinct fun s => s == "y"
  obtain ⟨goal, -, wanted⟩ := Assignment.exists_of_valuation distinct fun s => s == "x"
  have satisfied := Cnf.allSatisfied_of_valuation declared wanted only
  have total : ∀ s ∈ ["x", "y"], s ∈ start.symbols := by
    intro s hs
    rwa [Assignment.symbols_of_valuation values]
  obtain ⟨reach, walks⟩ := random_moves_reach_model distinct declared
  obtain ⟨picks, last, moves, length, found⟩ := reach start goal total satisfied
  have few : picks.length ≤ 2 := Nat.le_trans length List.countP_le_length
  obtain ⟨-, draws, model, left, -, -, solved, steps⟩ :=
    walks (fun s => s == "y") (fun s => s == "x") ⟨⟨0.5, by decide⟩, 3⟩ only (by decide) (by decide)
  exact ⟨distinct, declared,
    ⟨start, goal, values, wanted, satisfied, picks, last, moves, few, found⟩,
    draws, model, left, solved, Nat.le_trans steps List.countP_le_length⟩

end CnfSearch

import CnfSearch.Command.Options

set_option autoImplicit false

/-!
# What a script does on every host

`Script.Always` says that the lines that a script prints and its result satisfy a postcondition
whatever its host answers, and `Task.Always` says the same of a script that can fail. A
postcondition is pushed through a sequence by `Script.always_bind` and `Task.always_bind`, and each
question to the host has a rule of its own. `Script.Always.output` reads a postcondition off for one
host.
-/

namespace CnfSearch.Command

namespace Script

variable {α β : Type}

/-- Whatever the host answers, the printed lines and the result satisfy a postcondition. -/
def Always (s : Script α) (post : List String → α → Prop) : Prop :=
  match s with
  | .done result => post [] result
  | .print line rest => (rest ()).Always fun lines => post (line :: lines)
  | .note _ rest => (rest ()).Always post
  | .clock rest => ∀ t, (rest t).Always post
  | .memory rest => ∀ m, (rest m).Always post
  | .entropy rest => ∀ w, (rest w).Always post
  | .read _ rest => ∀ r, (rest r).Always post
  | .list _ rest => ∀ f, (rest f).Always post

/-- After the first of two scripts the second one prints behind its lines. -/
theorem always_bind {s : Script α} {next : α → Script β} {post : List String → β → Prop} :
    (s.bind next).Always post ↔
      s.Always fun lines result => (next result).Always fun more => post (lines ++ more) := by
  induction s generalizing post with
  | done result => rfl
  | print line rest ih => exact ih ()
  | note entry rest ih => exact ih ()
  | clock rest ih => exact forall_congr' fun t => ih t
  | memory rest ih => exact forall_congr' fun m => ih m
  | entropy rest ih => exact forall_congr' fun w => ih w
  | read path rest ih => exact forall_congr' fun r => ih r
  | list path rest ih => exact forall_congr' fun f => ih f

theorem Always.mono {s : Script α} {post weaker : List String → α → Prop} (h : s.Always post)
    (imp : ∀ lines result, post lines result → weaker lines result) : s.Always weaker := by
  induction s generalizing post weaker with
  | done result => exact imp [] result h
  | print line rest ih => exact ih () h fun lines => imp (line :: lines)
  | note entry rest ih => exact ih () h imp
  | clock rest ih => exact fun t => ih t (h t) imp
  | memory rest ih => exact fun m => ih m (h m) imp
  | entropy rest ih => exact fun w => ih w (h w) imp
  | read path rest ih => exact fun r => ih r (h r) imp
  | list path rest ih => exact fun f => ih f (h f) imp

/-- What holds on every host holds on each. -/
theorem Always.output {s : Script α} {post : List String → α → Prop} (h : s.Always post)
    (host : Host) : post (s.output host).1 (s.output host).2 := by
  induction s generalizing post with
  | done result => exact h
  | print line rest ih => exact ih () h
  | note entry rest ih => exact ih () h
  | clock rest ih => exact ih none (h none)
  | memory rest ih => exact ih none (h none)
  | entropy rest ih => exact ih host.entropy (h host.entropy)
  | read path rest ih => exact ih (host.read path) (h (host.read path))
  | list path rest ih => exact ih (host.list path) (h (host.list path))

end Script

namespace Task

variable {α β : Type}

/-- Whatever the host answers, the printed lines and the result or error satisfy a
postcondition. -/
def Always (t : Task α) (post : List String → Except CommandError α → Prop) : Prop :=
  Script.Always (ExceptT.run t) post

theorem Always.mono {t : Task α} {post weaker : List String → Except CommandError α → Prop}
    (h : t.Always post) (imp : ∀ lines result, post lines result → weaker lines result) :
    t.Always weaker :=
  Script.Always.mono h imp

/-- After a task that fails nothing else happens. -/
theorem always_bind {t : Task α} {next : α → Task β}
    {post : List String → Except CommandError β → Prop} :
    (t >>= next).Always post ↔ t.Always fun lines result =>
      match result with
      | .ok a => (next a).Always fun more => post (lines ++ more)
      | .error cause => post lines (.error cause) := by
  refine Script.always_bind.trans (iff_of_eq (congrArg (Script.Always _) ?_))
  funext lines result
  cases result with
  | ok a => rfl
  | error cause =>
    -- The failure is handed on by a script that prints nothing.
    show post (lines ++ []) (.error cause) = post lines (.error cause)
    rw [List.append_nil]

theorem always_pure {a : α} {post : List String → Except CommandError α → Prop} :
    (pure a : Task α).Always post ↔ post [] (.ok a) := Iff.rfl

theorem always_throw {cause : CommandError} {post : List String → Except CommandError α → Prop} :
    (throw cause : Task α).Always post ↔ post [] (.error cause) := Iff.rfl

theorem always_print {line : String} {post : List String → Except CommandError Unit → Prop} :
    (print line).Always post ↔ post [line] (.ok ()) := Iff.rfl

theorem always_clock {post : List String → Except CommandError (Option Nat) → Prop} :
    clock.Always post ↔ ∀ t, post [] (.ok t) := Iff.rfl

theorem always_memory {post : List String → Except CommandError (Option Memory) → Prop} :
    memory.Always post ↔ ∀ m, post [] (.ok m) := Iff.rfl

theorem always_entropy {G : Type} [SeededSource G]
    {post : List String → Except CommandError G → Prop} :
    (entropy G).Always post ↔ ∀ w, post [] (.ok (SeededSource.ofSeed w)) := Iff.rfl

/-- Printing lines one after another prints all of them. -/
theorem always_forM_print {lines : List String}
    {post : List String → Except CommandError Unit → Prop} :
    Task.Always (lines.forM print) post ↔ post lines (.ok ()) := by
  induction lines generalizing post with
  | nil => rfl
  | cons line lines ih =>
    rw [List.forM, always_bind, always_print]
    exact ih

/-- A task prints nothing and succeeds. -/
def Silent (t : Task Unit) : Prop :=
  ∀ post : List String → Except CommandError Unit → Prop, t.Always post ↔ post [] (.ok ())

theorem silent_pure : Silent (pure ()) := fun _ => Iff.rfl

theorem silent_note (entry : LogEntry) : Silent (note entry) := fun _ => Iff.rfl

theorem silent_forM {entries : List β} {act : β → Task Unit}
    (h : ∀ entry ∈ entries, (act entry).Silent) : Silent (entries.forM act) := by
  intro post
  induction entries generalizing post with
  | nil => rfl
  | cons entry entries ih =>
    rw [List.forall_mem_cons] at h
    rw [List.forM, always_bind, h.1]
    exact ih h.2 post

/-- Loading prints nothing and gives what the reading gives. -/
theorem always_load {reading : Dimacs.Reading}
    {post : List String → Except CommandError Problem → Prop} :
    (load reading).Always post ↔ post [] (loadResult reading) := by
  have silent : Silent (reading.notes.forM fun n => note n.entry) :=
    silent_forM fun n _ => silent_note n.entry
  rw [load, always_bind, silent]
  cases loadResult reading with
  | ok p => exact always_pure
  | error cause => exact always_throw

end Task

end CnfSearch.Command

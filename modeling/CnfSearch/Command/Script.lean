import CnfSearch.Dimacs.Line
import CnfSearch.Log

set_option autoImplicit false

/-!
# Scripts

What a command does is a value: a script of the lines that it prints and of the questions that it
puts to its host. A host that performs a script on a terminal and one that only collects its lines
therefore follow one definition. `Script.output` is the view of a script as the lines that it prints
under given answers.
-/

namespace CnfSearch.Command

/-- Files and folders by name, each with what is known of it. -/
inductive Folder (α : Type) where
  | empty
  | file (name : String) (content : α) (rest : Folder α)
  | folder (name : String) (inside : Folder α) (rest : Folder α)

/-- The memory of a process, in bytes. -/
structure Memory where
  allocated : Nat
  resident : Nat

/-- The figures and files that a script asks its host for. A figure is `none` where nothing measures
it. -/
inductive Script (α : Type) where
  | done (result : α)
  /-- Print a line. -/
  | print (line : String) (rest : Unit → Script α)
  /-- Tell about the work. -/
  | note (entry : LogEntry) (rest : Unit → Script α)
  /-- Ask for the time in nanoseconds. -/
  | clock (rest : Option Nat → Script α)
  /-- Ask for the memory in use. -/
  | memory (rest : Option Memory → Script α)
  /-- Ask for a word that nobody can foresee. -/
  | entropy (rest : UInt64 → Script α)
  /-- Ask for the bytes of a file. -/
  | read (path : String) (rest : Except Dimacs.FileError (List UInt8) → Script α)
  /-- Ask for what a folder holds, if a path leads to one. -/
  | list (path : String) (rest : Option (Folder Unit) → Script α)

namespace Script

/-- Go on with the result of a script. -/
def bind {α β : Type} (s : Script α) (next : α → Script β) : Script β :=
  match s with
  | .done result => next result
  | .print line rest => .print line fun u => (rest u).bind next
  | .note entry rest => .note entry fun u => (rest u).bind next
  | .clock rest => .clock fun t => (rest t).bind next
  | .memory rest => .memory fun m => (rest m).bind next
  | .entropy rest => .entropy fun w => (rest w).bind next
  | .read path rest => .read path fun r => (rest r).bind next
  | .list path rest => .list path fun f => (rest f).bind next

instance : Monad Script where
  pure := .done
  bind := bind

/-- The answers of a host that measures nothing. -/
structure Host where
  entropy : UInt64
  read : String → Except Dimacs.FileError (List UInt8)
  list : String → Option (Folder Unit)

/-- The lines that a script prints on a host, and its result. -/
def output {α : Type} (host : Host) : Script α → List String × α
  | .done result => ([], result)
  | .print line rest =>
    let (lines, result) := (rest ()).output host
    (line :: lines, result)
  | .note _ rest => (rest ()).output host
  | .clock rest => (rest none).output host
  | .memory rest => (rest none).output host
  | .entropy rest => (rest host.entropy).output host
  | .read path rest => (rest (host.read path)).output host
  | .list path rest => (rest (host.list path)).output host

@[simp] theorem output_done {α : Type} (host : Host) (result : α) :
    (Script.done result).output host = ([], result) := rfl

/-- One script after another prints the lines of both. -/
theorem output_bind {α β : Type} (host : Host) (s : Script α) (next : α → Script β) :
    (s.bind next).output host =
      ((s.output host).1 ++ ((next (s.output host).2).output host).1,
        ((next (s.output host).2).output host).2) := by
  induction s with
  | done result => simp [bind]
  | print line rest ih => simp [bind, output, ih]
  | note entry rest ih => simp [bind, output, ih]
  | clock rest ih => simp [bind, output, ih]
  | memory rest ih => simp [bind, output, ih]
  | entropy rest ih => simp [bind, output, ih]
  | read path rest ih => simp [bind, output, ih]
  | list path rest ih => simp [bind, output, ih]

end Script

end CnfSearch.Command

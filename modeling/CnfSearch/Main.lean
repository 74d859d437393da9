import CnfSearch.Command.Run
import CnfSearch.Random.Generator

set_option autoImplicit false

/-!
# The program

Performs the script of a command line: prints its lines, tells its notes on the error stream, and
answers its questions from the clock, the process and the file system.
-/

namespace CnfSearch.Terminal

open CnfSearch.Command

/-- The file error that stands for an error of the system. -/
def fileError (e : IO.Error) : Dimacs.FileError :=
  match e with
  | .noFileOrDirectory .. => .notFound
  | .inappropriateType _ code _ =>
    if code = 21 then .isDirectory
    -- The number of this error comes with or without a minus sign.
    else if code = 20 ∨ code = -20 then .notDirectory
    else .other e.toString
  | _ => .other e.toString

/-- Read a file. -/
def readFile (path : String) : IO (Except Dimacs.FileError (List UInt8)) := do
  try
    return .ok (← IO.FS.readBinFile path).toList
  catch e =>
    return .error (fileError e)

/-- A path as a directory entry, whose methods reach the file system. -/
def entryOf (path : String) : IO.FS.DirEntry := ⟨path, ""⟩

/-- Read the names in a folder and below it. A link is followed to a file but not to a folder, and
a folder that cannot be read is as good as empty. -/
partial def readFolder (path : String) : IO (Folder Unit) := do
  let mut folder := Folder.empty
  for entry in ← (try (entryOf path).root.readDir catch _ => pure #[]) do
    let own ← try pure (some (← entry.path.symlinkMetadata).type) catch _ => pure none
    let kind ← try pure (some (← entry.path.metadata).type) catch _ => pure none
    if own == some .dir then
      folder := .folder entry.fileName (← readFolder entry.path.toString) folder
    else if kind == some .file then
      folder := .file entry.fileName () folder
  return folder

/-- What a folder holds, if a path leads to one. -/
def listFolder (path : String) : IO (Option (Folder Unit)) := do
  if ← (entryOf path).root.isDir then return some (← readFolder path) else return none

/-- The memory of this process, counted in pages of 4 KiB. -/
def readMemory : IO (Option Memory) := do
  try
    let fields := (← IO.FS.readFile "/proc/self/statm").splitOn " "
    match fields.map String.toNat? with
    | some _ :: some resident :: _ :: _ :: _ :: some data :: _ =>
      return some ⟨data * 4096, resident * 4096⟩
    | _ => return none
  catch _ => return none

/-- A word from the random numbers of the system. -/
def randomWord : IO UInt64 := do
  let bytes ← IO.getRandomBytes 8
  return bytes.toList.foldl (fun word byte => word * 256 + byte.toUInt64) 0

/-- Perform a script. Notes of the severity trace are not told, and warnings are always told. -/
def perform {α : Type} (debug : Bool) : Script α → IO α
  | .done result => pure result
  | .print line rest => do
    IO.println line
    perform debug (rest ())
  | .note entry rest => do
    if entry.severity = .warn ∨ (debug = true ∧ entry.severity = .debug) then
      IO.eprintln ("[" ++ entry.severity.text ++ " " ++ entry.topic ++ "] " ++ entry.message)
    perform debug (rest ())
  | .clock rest => do perform debug (rest (some (← IO.monoNanosNow)))
  | .memory rest => do perform debug (rest (← readMemory))
  | .entropy rest => do perform debug (rest (← randomWord))
  | .read path rest => do perform debug (rest (← readFile path))
  | .list path rest => do perform debug (rest (← listFolder path))

end CnfSearch.Terminal

/-- Run the command line of the program. -/
def main (words : List String) : IO UInt32 := do
  let request := CnfSearch.Command.Request.read words
  let script := request.run CnfSearch.Generator
  let exit ← CnfSearch.Terminal.perform request.options.debug script
  for line in exit.errors do
    IO.eprintln line
  return exit.code.toUInt32

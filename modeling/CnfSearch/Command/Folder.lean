import CnfSearch.Command.Script

set_option autoImplicit false

/-!
# Folders

Paths in a tree of folders, and the order in which a folder's problems are solved: depth first, the
entries of every folder sorted by name.
-/

namespace CnfSearch.Command

/-- A path that leads on from another one. -/
def joinPath (parent name : String) : String :=
  if parent.endsWith "/" then parent ++ name else parent ++ "/" ++ name

/-- Whether a file name has the extension `cnf`. A name that is nothing but an extension has none. -/
def isProblemName (name : String) : Bool := name.endsWith ".cnf" && decide (4 < name.length)

/-- Join lists in the order of their names. -/
def inNameOrder {α : Type} (named : List (String × List α)) : List α :=
  (named.mergeSort fun a b => decide (a.1 ≤ b.1)).flatMap Prod.snd

namespace Folder

variable {α β : Type}

/-- The paths of the problems behind each entry. -/
def problemsByName (parent : String) : Folder α → List (String × List String)
  | .empty => []
  | .file name _ rest =>
    (name, if isProblemName name then [joinPath parent name] else []) :: rest.problemsByName parent
  | .folder name inside rest =>
    (name, inNameOrder (inside.problemsByName (joinPath parent name)))
      :: rest.problemsByName parent

/-- The paths of all problems in a folder. -/
def problems (path : String) (f : Folder α) : List String := inNameOrder (f.problemsByName path)

/-- The same folder, with something else known of its files. -/
def map (g : α → β) : Folder α → Folder β
  | .empty => .empty
  | .file name content rest => .file name (g content) (rest.map g)
  | .folder name inside rest => .folder name (inside.map g) (rest.map g)

/-- What a name stands for. -/
inductive Entry (α : Type) where
  | file (content : α)
  | folder (inside : Folder α)

/-- The entry of a name. -/
def find? (name : String) : Folder α → Option (Entry α)
  | .empty => none
  | .file n content rest => if n = name then some (.file content) else rest.find? name
  | .folder n inside rest => if n = name then some (.folder inside) else rest.find? name

/-- The file or folder at the end of a path. The folders that were entered are kept, the last one
first, for the steps back; there is no step back out of the outermost one. -/
def locate (here : Folder α) (entered : List (Folder α)) :
    List String → Except Dimacs.FileError (Entry α)
  | [] => .ok (.folder here)
  | "" :: rest => locate here entered rest
  | "." :: rest => locate here entered rest
  | ".." :: rest =>
    match entered with
    | [] => locate here [] rest
    | outer :: others => locate outer others rest
  | name :: rest =>
    match here.find? name with
    | none => .error .notFound
    | some (.folder inside) => locate inside (here :: entered) rest
    | some (.file content) => if rest.isEmpty then .ok (.file content) else .error .notDirectory

/-- The bytes of the file at the end of a path. -/
def contentAt (root : Folder α) (path : String) : Except Dimacs.FileError α :=
  match root.locate [] (path.splitOn "/") with
  | .ok (.file content) => .ok content
  | .ok (.folder _) => .error .isDirectory
  | .error cause => .error cause

/-- The folder at the end of a path, if there is one. -/
def openFolder (root : Folder α) (path : String) : Option (Folder α) :=
  match root.locate [] (path.splitOn "/") with
  | .ok (.folder inside) => some inside
  | _ => none

/-- Put a file, or an empty folder, at the end of a path, and every folder on the way. -/
def insert (content : Option α) : List String → Folder α → Folder α
  | [], f => f
  | [name], f =>
    match content with
    | some content => .file name content f
    | none => .folder name .empty f
  | name :: rest, .empty => .folder name (insert content rest .empty) .empty
  | name :: next :: rest, .file n c others =>
    .file n c (insert content (name :: next :: rest) others)
  | name :: next :: rest, .folder n inside others =>
    if n = name then .folder n (insert content (next :: rest) inside) others
    else .folder n inside (insert content (name :: next :: rest) others)

/-- The host whose files are those of a folder. -/
def host (root : Folder (List UInt8)) (entropy : UInt64) : Script.Host where
  entropy := entropy
  read := root.contentAt
  list := fun path => (root.openFolder path).map (Folder.map fun _ => ())

end Folder

end CnfSearch.Command

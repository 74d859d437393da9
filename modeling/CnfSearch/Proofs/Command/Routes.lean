import CnfSearch.Command.Folder
import Mathlib.Data.String.Basic

set_option autoImplicit false

/-!
# Routes to the problems of a folder

A route names the folders that lead to a file and, last, the file. The search through a folder is
followed by its routes instead of its paths (`Folder.problems_eq_map_routes`): it comes to the
regular files with the extension `cnf` (`Folder.mem_routes_iff`), depth first with the entries of
every folder by name (`Folder.pairwise_routes`). Both together determine the order in which files
are solved, so two folders with the same problems are searched alike
(`Folder.routes_eq_of_problemAt_iff`).
-/

namespace CnfSearch.Command

/-! ## Names -/

/-- A name is a stem, a dot and an extension, in which there is no other dot. -/
def HasExtension (extension name : String) : Prop :=
  ∃ stem, stem ≠ "" ∧ '.' ∉ extension.toList ∧ name = stem ++ "." ++ extension

theorem endsWith_iff {s ending : String} :
    s.endsWith ending = true ↔ ending.toList <:+ s.toList := by
  rw [String.endsWith_eq_endsWith_toSlice, String.Slice.endsWith_string_iff, String.copy_toSlice]

theorem isProblemName_iff_suffix {name : String} :
    isProblemName name = true ↔ ".cnf".toList <:+ name.toList ∧ 4 < name.length := by
  rw [isProblemName, Bool.and_eq_true, decide_eq_true_iff, endsWith_iff]

theorem isProblemName_iff {name : String} :
    isProblemName name = true ↔ HasExtension "cnf" name := by
  rw [isProblemName_iff_suffix]
  constructor
  · rintro ⟨⟨stem, hstem⟩, long⟩
    have whole : name = String.ofList stem ++ "." ++ "cnf" := by
      rw [← String.toList_inj, ← hstem]
      simp
    refine ⟨String.ofList stem, ?_, by decide, whole⟩
    intro nothing
    rw [whole, nothing] at long
    exact absurd long (by decide)
  · rintro ⟨stem, nonempty, -, rfl⟩
    refine ⟨⟨stem.toList, by simp⟩, ?_⟩
    have : stem.length ≠ 0 := by
      rw [← String.length_toList, Ne, List.length_eq_zero_iff, String.toList_eq_nil_iff]
      exact nonempty
    simp only [String.length_append]
    have dot : ".".length = 1 := rfl
    have cnf : "cnf".length = 3 := rfl
    omega

/-! ## Paths -/

theorem joinPath_of_not_suffix {parent : String} (h : ¬ "/".toList <:+ parent.toList)
    (name : String) : joinPath parent name = parent ++ "/" ++ name := by
  rw [joinPath, if_neg (endsWith_iff.not.mpr h)]

/-- The path at the end of a route. -/
def pathOf (path : String) (route : List String) : String := route.foldl joinPath path

/-! ## The order of routes -/

/-- Where two routes part, the first one takes the smaller name. -/
inductive Precedes : List String → List String → Prop where
  | part {m n : String} {r s : List String} (smaller : m < n) : Precedes (m :: r) (n :: s)
  | enter {r s : List String} (name : String) (h : Precedes r s) :
    Precedes (name :: r) (name :: s)

theorem Precedes.irrefl (r : List String) : ¬ Precedes r r := by
  intro h
  induction r with
  | nil => cases h
  | cons name r ih =>
    cases h with
    | part smaller => exact lt_irrefl name smaller
    | enter _ h => exact ih h

theorem Precedes.asymm {r s : List String} (h : Precedes r s) : ¬ Precedes s r := by
  induction h with
  | part smaller =>
    rintro (smaller' | ⟨_, h⟩)
    · exact lt_asymm smaller smaller'
    · exact lt_irrefl _ smaller
  | enter name h ih =>
    rintro (smaller | ⟨_, h'⟩)
    · exact lt_irrefl name smaller
    · exact ih h'

/-- Routes in their order are determined by which routes they are. -/
theorem eq_of_pairwise_precedes {rs ss : List (List String)} (hr : rs.Pairwise Precedes)
    (hs : ss.Pairwise Precedes) (same : ∀ route, route ∈ rs ↔ route ∈ ss) : rs = ss := by
  have nodup : ∀ {ts : List (List String)}, ts.Pairwise Precedes → ts.Nodup := by
    intro ts ordered
    refine ordered.imp ?_
    rintro r _ before rfl
    exact Precedes.irrefl r before
  have perm : rs.Perm ss := (List.perm_ext_iff_of_nodup (nodup hr) (nodup hs)).mpr same
  exact perm.eq_of_pairwise (fun r s _ _ before after => absurd after before.asymm) hr hs

/-! ## Lists by name -/

section InNameOrder

variable {α β : Type} {named : List (String × List α)}

theorem not_mem_inNameOrder_nil {x : α} : x ∉ inNameOrder ([] : List (String × List α)) := by
  simp [inNameOrder]

theorem mem_inNameOrder_cons {x : α} {e : String × List α} :
    x ∈ inNameOrder (e :: named) ↔ x ∈ e.2 ∨ x ∈ inNameOrder named := by
  simp [inNameOrder, List.mem_flatMap]

theorem inNameOrder_map (g : α → β) (named : List (String × List α)) :
    inNameOrder (named.map fun e => (e.1, e.2.map g)) = (inNameOrder named).map g := by
  rw [inNameOrder, ← List.map_mergeSort (r := fun a b => decide (a.1 ≤ b.1)) (fun _ _ _ _ => rfl)]
  simp [inNameOrder, List.flatMap_map, List.map_flatMap]

/-- Sorting lists by distinct names puts a list before another if its name is smaller. -/
theorem pairwise_inNameOrder {R : α → α → Prop} (distinct : (named.map Prod.fst).Nodup)
    (within : ∀ e ∈ named, e.2.Pairwise R)
    (across : ∀ d ∈ named, ∀ e ∈ named, d.1 < e.1 → ∀ x ∈ d.2, ∀ y ∈ e.2, R x y) :
    (inNameOrder named).Pairwise R := by
  rw [inNameOrder, List.pairwise_flatMap]
  have perm := List.mergeSort_perm named fun a b => decide (a.1 ≤ b.1)
  refine ⟨fun e he => within e (perm.mem_iff.mp he), ?_⟩
  have sorted : (named.mergeSort fun a b => decide (a.1 ≤ b.1)).Pairwise
      fun a b => decide (a.1 ≤ b.1) = true := by
    apply List.pairwise_mergeSort
    · intro a b c hab hbc
      rw [decide_eq_true_iff] at hab hbc ⊢
      exact le_trans hab hbc
    · intro a b
      rw [Bool.or_eq_true, decide_eq_true_iff, decide_eq_true_iff]
      exact le_total a.1 b.1
  have apart : (named.mergeSort fun a b => decide (a.1 ≤ b.1)).Pairwise fun a b => a.1 ≠ b.1 := by
    have nodup := (perm.map Prod.fst).nodup_iff.mpr distinct
    rwa [List.Nodup, List.pairwise_map] at nodup
  -- Sorted and distinct names ascend.
  refine (sorted.and apart).imp_of_mem ?_
  rintro d e hd he ⟨le, ne⟩
  rw [decide_eq_true_iff] at le
  exact across d (perm.mem_iff.mp hd) e (perm.mem_iff.mp he) (lt_of_le_of_ne le ne)

end InNameOrder

namespace Folder

variable {α : Type}

/-! ## Files and problems -/

/-- A regular file is at the end of a route. -/
inductive FileAt : Folder α → List String → Prop where
  | here (name : String) (content : α) (rest : Folder α) : FileAt (.file name content rest) [name]
  | inside {f : Folder α} {route : List String} (name : String) (rest : Folder α)
    (h : FileAt f route) : FileAt (.folder name f rest) (name :: route)
  | afterFile {rest : Folder α} {route : List String} (name : String) (content : α)
    (h : FileAt rest route) : FileAt (.file name content rest) route
  | afterFolder {rest : Folder α} {route : List String} (name : String) (f : Folder α)
    (h : FileAt rest route) : FileAt (.folder name f rest) route

theorem FileAt.ne_nil {f : Folder α} {route : List String} (h : f.FileAt route) : route ≠ [] := by
  induction h with
  | here name content rest => exact List.cons_ne_nil _ _
  | inside name rest h ih => exact List.cons_ne_nil _ _
  | afterFile name content h ih => exact ih
  | afterFolder name f h ih => exact ih

/-- A problem is a regular file with the extension `cnf`. -/
def ProblemAt (f : Folder α) (route : List String) : Prop :=
  f.FileAt route ∧ ∃ name, route.getLast? = some name ∧ HasExtension "cnf" name

section ProblemAt

variable {name : String} {content : α} {f rest : Folder α} {route : List String}

theorem not_problemAt_empty : ¬ (empty : Folder α).ProblemAt route := by
  rintro ⟨h, -⟩
  cases h

theorem problemAt_file_iff : (file name content rest).ProblemAt route ↔
    (route = [name] ∧ HasExtension "cnf" name) ∨ rest.ProblemAt route := by
  constructor
  · rintro ⟨h, last, hlast, hname⟩
    cases h with
    | here =>
      cases hlast
      exact .inl ⟨rfl, hname⟩
    | afterFile _ _ h => exact .inr ⟨h, last, hlast, hname⟩
  · rintro (⟨rfl, hname⟩ | ⟨h, hlast⟩)
    · exact ⟨.here name content rest, name, rfl, hname⟩
    · exact ⟨.afterFile name content h, hlast⟩

theorem problemAt_folder_iff : (folder name f rest).ProblemAt route ↔
    (∃ further, f.ProblemAt further ∧ name :: further = route) ∨ rest.ProblemAt route := by
  constructor
  · rintro ⟨h, hlast⟩
    cases h with
    | inside _ _ h =>
      rw [List.getLast?_cons_of_ne_nil h.ne_nil] at hlast
      exact .inl ⟨_, ⟨h, hlast⟩, rfl⟩
    | afterFolder _ _ h => exact .inr ⟨h, hlast⟩
  · rintro (⟨further, ⟨h, hlast⟩, rfl⟩ | ⟨h, hlast⟩)
    · rw [← List.getLast?_cons_of_ne_nil h.ne_nil] at hlast
      exact ⟨.inside name rest h, hlast⟩
    · exact ⟨.afterFolder name f h, hlast⟩

end ProblemAt

/-- The names of the entries. -/
def names : Folder α → List String
  | .empty => []
  | .file name _ rest => name :: rest.names
  | .folder name _ rest => name :: rest.names

/-- No folder has two entries of one name. -/
def Distinct : Folder α → Prop
  | .empty => True
  | .file name _ rest => name ∉ rest.names ∧ rest.Distinct
  | .folder name inside rest => name ∉ rest.names ∧ inside.Distinct ∧ rest.Distinct

theorem Distinct.nodup_names {f : Folder α} (distinct : f.Distinct) : f.names.Nodup := by
  induction f with
  | empty => exact List.nodup_nil
  | file name content rest ih => exact List.nodup_cons.mpr ⟨distinct.1, ih distinct.2⟩
  | folder name inside rest _ ih => exact List.nodup_cons.mpr ⟨distinct.1, ih distinct.2.2⟩

/-! ## The routes of a search -/

/-- The routes to the problems behind each entry. -/
def routesByName : Folder α → List (String × List (List String))
  | .empty => []
  | .file name _ rest => (name, if isProblemName name then [[name]] else []) :: rest.routesByName
  | .folder name inside rest =>
    (name, (inNameOrder inside.routesByName).map (name :: ·)) :: rest.routesByName

/-- The routes to all problems, in the order of a search. -/
def routes (f : Folder α) : List (List String) := inNameOrder f.routesByName

theorem problemsByName_eq_map_routesByName (parent : String) (f : Folder α) :
    f.problemsByName parent = f.routesByName.map fun e => (e.1, e.2.map (pathOf parent)) := by
  induction f generalizing parent with
  | empty => rfl
  | file name content rest ih =>
    rw [problemsByName, routesByName, List.map_cons, ih]
    split <;> rfl
  | folder name inside rest ihInside ihRest =>
    rw [problemsByName, routesByName, List.map_cons, ihInside, ihRest, inNameOrder_map,
      List.map_map]
    -- To enter the folder first is a step of the path.
    rfl

/-- The paths of the problems are those at the ends of the routes. -/
theorem problems_eq_map_routes (path : String) (f : Folder α) :
    f.problems path = f.routes.map (pathOf path) := by
  rw [problems, problemsByName_eq_map_routesByName, inNameOrder_map, routes]

/-- A search comes to exactly the problems. -/
theorem mem_routes_iff {f : Folder α} {route : List String} :
    route ∈ f.routes ↔ f.ProblemAt route := by
  rw [routes]
  induction f generalizing route with
  | empty => exact iff_of_false not_mem_inNameOrder_nil not_problemAt_empty
  | file name content rest ih =>
    rw [routesByName, mem_inNameOrder_cons, ih, problemAt_file_iff, ← isProblemName_iff]
    by_cases h : isProblemName name = true <;> simp [h]
  | folder name inside rest ihInside ihRest =>
    rw [routesByName, mem_inNameOrder_cons, ihRest, problemAt_folder_iff, List.mem_map]
    simp only [ihInside]

theorem map_fst_routesByName (f : Folder α) : f.routesByName.map Prod.fst = f.names := by
  induction f with
  | empty => rfl
  | file name content rest ih => rw [routesByName, names, List.map_cons, ih]
  | folder name inside rest _ ih => rw [routesByName, names, List.map_cons, ih]

/-- The routes behind an entry begin with its name. -/
theorem exists_eq_cons_of_mem_routesByName {f : Folder α} :
    ∀ e ∈ f.routesByName, ∀ route ∈ e.2, ∃ further, route = e.1 :: further := by
  induction f with
  | empty => simp [routesByName]
  | file name content rest ih =>
    rw [routesByName, List.forall_mem_cons]
    refine ⟨fun route h => ?_, ih⟩
    have : route = [name] := by
      dsimp only at h
      split at h
      · exact List.mem_singleton.mp h
      · cases h
    exact ⟨[], this⟩
  | folder name inside rest _ ih =>
    rw [routesByName, List.forall_mem_cons]
    refine ⟨fun route h => ?_, ih⟩
    obtain ⟨further, -, rfl⟩ := List.mem_map.mp h
    exact ⟨further, rfl⟩

/-- If the routes behind each entry are in order, so are all routes. -/
theorem pairwise_routes_of_within {f : Folder α} (distinct : f.Distinct)
    (within : ∀ e ∈ f.routesByName, e.2.Pairwise Precedes) : f.routes.Pairwise Precedes := by
  apply pairwise_inNameOrder
  · rw [map_fst_routesByName]
    exact distinct.nodup_names
  · exact within
  · intro d hd e he smaller r hr s hs
    obtain ⟨r, rfl⟩ := exists_eq_cons_of_mem_routesByName d hd r hr
    obtain ⟨s, rfl⟩ := exists_eq_cons_of_mem_routesByName e he s hs
    exact .part smaller

theorem pairwise_of_mem_routesByName {f : Folder α} (distinct : f.Distinct) :
    ∀ e ∈ f.routesByName, e.2.Pairwise Precedes := by
  induction f with
  | empty => simp [routesByName]
  | file name content rest ih =>
    rw [routesByName, List.forall_mem_cons]
    refine ⟨?_, ih distinct.2⟩
    dsimp only
    split
    · exact List.pairwise_singleton _ _
    · exact List.Pairwise.nil
  | folder name inside rest ihInside ihRest =>
    rw [routesByName, List.forall_mem_cons]
    refine ⟨?_, ihRest distinct.2.2⟩
    have ordered := pairwise_routes_of_within distinct.2.1 (ihInside distinct.2.1)
    exact List.pairwise_map.mpr (ordered.imp (.enter name))

/-- A search goes depth first and by name. -/
theorem pairwise_routes {f : Folder α} (distinct : f.Distinct) : f.routes.Pairwise Precedes :=
  pairwise_routes_of_within distinct (pairwise_of_mem_routesByName distinct)

/-- Folders with the same problems are searched alike. -/
theorem routes_eq_of_problemAt_iff {f g : Folder α} (hf : f.Distinct) (hg : g.Distinct)
    (same : ∀ route, f.ProblemAt route ↔ g.ProblemAt route) : f.routes = g.routes := by
  apply eq_of_pairwise_precedes (pairwise_routes hf) (pairwise_routes hg)
  intro route
  rw [mem_routes_iff, mem_routes_iff, same]

end Folder

end CnfSearch.Command

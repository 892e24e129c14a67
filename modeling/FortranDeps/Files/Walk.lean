import FortranDeps.Counting
import FortranDeps.Files.Tree

/-!
The walk over the regular files below a directory. Directories are visited before what
stands after them, the names of each in ascending order, and links are followed; a link
back to a directory that is being visited is an error.
-/

namespace FortranDeps.FileTree

/-- A regular file met on a walk, with the names that lead to it from the start. -/
structure Found where
  path : Path
  relative : List String
  deriving DecidableEq, Repr

inductive WalkFault where
  | access (path : Path) (fault : AccessFault)
  | loop (path ancestor : Path)
  deriving DecidableEq, Repr

/-- A directory that is being visited, with the path that led to it. -/
abbrev Ancestor := Place × Path

/-- The number of places that are not being visited. -/
def unvisited (tree : FileTree) (ancestors : List Ancestor) : Nat :=
  (tree.places.filter fun place => !ancestors.any (·.1 == place)).length

/-- The number of names in the longest place, and one more. -/
def depthBound (tree : FileTree) : Nat := (tree.places.map List.length).foldr max 0 + 1

theorem length_lt_depth_bound {tree : FileTree} {place : Place}
    (member : place ∈ tree.places) : place.length < tree.depthBound := by
  unfold depthBound
  generalize tree.places = places at member
  induction places with
  | nil => simp at member
  | cons first rest induction =>
      rcases List.mem_cons.mp member with same | later
      · subst same
        simp only [List.map_cons, List.foldr_cons]
        omega
      · have := induction later
        simp only [List.map_cons, List.foldr_cons]
        omega

theorem unvisited_le (tree : FileTree) (ancestor : Ancestor) (ancestors : List Ancestor) :
    tree.unvisited (ancestor :: ancestors) ≤ tree.unvisited ancestors := by
  refine Counting.length_filter_le _ fun place fresh => ?_
  simp only [List.any_cons, Bool.not_or, Bool.and_eq_true] at fresh
  exact fresh.2

theorem unvisited_lt {tree : FileTree} {place : Place} (path : Path) {ancestors : List Ancestor}
    (directory : tree.node? place = some .directory)
    (fresh : ancestors.any (·.1 == place) = false) :
    tree.unvisited ((place, path) :: ancestors) < tree.unvisited ancestors := by
  refine Counting.length_filter_lt (fun other unseen => ?_) (mem_places directory)
    (by rw [fresh]; rfl) (by simp)
  simp only [List.any_cons, Bool.not_or, Bool.and_eq_true] at unseen
  exact unseen.2

/-- Walks the given names of a directory. The directory itself is the first ancestor. -/
def walkNames (tree : FileTree) (ancestors : List Ancestor) (place : Place) (path : Path)
    (relative : List String) : List String → Except WalkFault (List Found)
  | [] => .ok []
  | name :: rest =>
      let inner := place ++ [name]
      let innerPath := path.join name
      let innerRelative := relative ++ [name]
      let met : Except WalkFault (List Found) :=
        match _child : tree.node? inner with
        | none => .ok []
        | some (.file _) => .ok [⟨innerPath, innerRelative⟩]
        | some .directory =>
            walkNames tree ((inner, innerPath) :: ancestors) inner innerPath innerRelative
              (tree.names inner)
        | some (.link _) =>
            match tree.locate innerPath with
            | .error fault => .error (.access innerPath fault)
            | .ok target =>
                match _target : tree.node? target with
                | some .directory =>
                    match _open : ancestors.find? (·.1 == target) with
                    | some (_, ancestor) => .error (.loop innerPath ancestor)
                    | none =>
                        walkNames tree ((target, innerPath) :: ancestors) target innerPath
                          innerRelative (tree.names target)
                | some _ => .ok [⟨innerPath, innerRelative⟩]
                | none => .ok []
      do
        let met ← met
        let later ← walkNames tree ancestors place path relative rest
        return met ++ later
termination_by names => (tree.unvisited ancestors, tree.depthBound - place.length, names.length)
decreasing_by
  · have deep := length_lt_depth_bound (mem_places _child)
    have fewer := tree.unvisited_le (place ++ [name], path.join name) ancestors
    have longer : (place ++ [name]).length = place.length + 1 := List.length_append
    refine Prod.Lex.right' _ fewer (Prod.Lex.left _ _ ?_)
    show tree.depthBound - (place ++ [name]).length < tree.depthBound - place.length
    have bound : (place ++ [name]).length < tree.depthBound := deep
    omega
  · refine Prod.Lex.left _ _ (unvisited_lt _ _target ?_)
    simpa [List.find?_eq_none] using _open
  · exact Prod.Lex.right _ (Prod.Lex.right _ (Nat.lt_succ_self _))

/-- The regular files at or below a path. -/
def walk (tree : FileTree) (root : Path) : Except WalkFault (List Found) :=
  match tree.locate root with
  | .error fault => .error (.access root fault)
  | .ok place =>
      match tree.node? place with
      | some (.file _) => .ok [⟨root, []⟩]
      | some .directory => tree.walkNames [(place, root)] place root [] (tree.names place)
      | _ => .ok []

end FortranDeps.FileTree

import FortranDeps.Files.Tree

/-!
The difference between two states of a file tree, as far as regular files go. Links and
directories are not counted.
-/

namespace FortranDeps.FileTree

/-- The regular file at a place, if there is one. -/
def content? (tree : FileTree) (place : Place) : Option ByteArray := tree.regularFiles.lookup place

/-- The files that are new or have another content. -/
def written (before after : FileTree) : List (Place × ByteArray) :=
  after.regularFiles.filter fun (place, content) => before.content? place != some content

/-- The files that are gone. -/
def removed (before after : FileTree) : List Place :=
  (before.regularFiles.map (·.1)).filter fun place => (after.content? place).isNone

/-- A place as a path from the working directory. -/
def relativeText (tree : FileTree) (place : Place) : String :=
  String.intercalate "/" (place.drop tree.workingDirectory.length)

/-- The directories of the temporary files, each empty or with a slash at its end, and
their contents, in ascending order. -/
def stagedTexts (tree : FileTree) : List (String × String) :=
  let pairs := tree.temporaries.map fun temporary =>
    let directory := tree.relativeText temporary.directory
    (if directory = "" then "" else directory ++ "/",
      (String.fromUTF8? temporary.content).getD "")
  pairs.mergeSort fun first second =>
    decide (first.1 < second.1) || (first.1 == second.1 && decide (first.2 ≤ second.2))

/-- Removes the regular file or link at a path; none if there is none. -/
def remove? (tree : FileTree) (path : Path) : Option FileTree :=
  match tree.destination path with
  | .error _ => none
  | .ok place =>
      match tree.node? place with
      | some (.file _) | some (.link _) => some (tree.erase place)
      | _ => none

end FortranDeps.FileTree

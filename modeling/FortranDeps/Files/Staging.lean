import FortranDeps.Diagnostic
import FortranDeps.Files.Tree

/-!
Output files that are written in two steps. Staging checks the guard against replacing a
file and writes the whole content to a temporary file beside the destination; committing
moves it into place. A staged write that is dropped leaves its destination alone.
-/

namespace FortranDeps

structure StagedWrite where
  path : Path
  temporary : Nat
  deriving DecidableEq, Repr

namespace StagedWrite

/-- The directory that holds the temporary file for a destination. -/
def directory (path : Path) : Path :=
  match path.parent with
  | some parent => if parent.text = "" then ⟨"."⟩ else parent
  | none => ⟨"."⟩

def stage (tree : FileTree) (path : Path) (content : ByteArray) (overwrite : Bool) :
    Except Diagnostic (StagedWrite × FileTree) :=
  if !overwrite && tree.contains path then .error (.outputExists path)
  else
    let directory := StagedWrite.directory path
    match tree.locate directory with
    | .error fault => .error (.io directory fault.message)
    | .ok place =>
        if tree.isDirectory place then
          let id := tree.freshId
          .ok (⟨path, id⟩,
            { tree with temporaries := tree.temporaries ++ [⟨id, place, content⟩] })
        else .error (.io directory AccessFault.notDirectory.message)

/-- Removes the temporary file. -/
def drop (staged : StagedWrite) (tree : FileTree) : FileTree :=
  { tree with temporaries := tree.temporaries.filter (·.id != staged.temporary) }

/-- Where a committed write goes: any place but one that holds a directory. -/
def target (staged : StagedWrite) (tree : FileTree) : Except AccessFault Place := do
  let place ← tree.destination staged.path
  if tree.isDirectory place then throw .isDirectory
  return place

/-- Moves the temporary file to its destination. The temporary file is gone afterwards
whether or not the move succeeds. -/
def commit (staged : StagedWrite) (tree : FileTree) : Except Diagnostic Unit × FileTree :=
  let remaining := staged.drop tree
  match tree.temporaries.find? (·.id == staged.temporary) with
  | none => (.error (.io staged.path AccessFault.notFound.message), remaining)
  | some temporary =>
      match staged.target tree with
      | .error fault => (.error (.io staged.path fault.message), remaining)
      | .ok place => (.ok (), remaining.put place (.file temporary.content))

end StagedWrite

/-- Stages a write and commits it at once. -/
def FileTree.writeFile (tree : FileTree) (path : Path) (content : ByteArray) (overwrite : Bool) :
    Except Diagnostic Unit × FileTree :=
  match StagedWrite.stage tree path content overwrite with
  | .error diagnostic => (.error diagnostic, tree)
  | .ok (staged, tree) => staged.commit tree

end FortranDeps

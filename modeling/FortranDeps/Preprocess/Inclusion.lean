import FortranDeps.Files.Tree
import FortranDeps.Preprocess.Block

/-!
The search for included files. The directory of the including file comes first, then the
search paths in the order in which they were given.
-/

namespace FortranDeps

/-- The kept lines of a file. -/
def FileTree.readLines (tree : FileTree) (path : Path) : Except Diagnostic (List Line) :=
  match tree.readText path with
  | .ok text => .ok (Line.ofText path.text text)
  | .error fault => .error (.io path fault.message)

namespace Preprocess

/-- Adds a search path; one that is already there keeps its position. -/
def addSearchPath (paths : List Path) (path : Path) : List Path :=
  if paths.any (·.same path) then paths else paths ++ [path]

def searchPaths (paths : List Path) : List Path := paths.foldl addSearchPath []

/-- The file that an include names. -/
def resolveInclude (tree : FileTree) (paths : List Path) (name : String) (includer : Path) :
    Option Path :=
  let directory := includer.parent.getD ⟨""⟩
  ((directory :: paths).map (·.join name)).find? tree.isFile

/-- The lines of the file that an include at the given location names. -/
def loadInclude (tree : FileTree) (paths : List Path) (name : String) (location : Location) :
    Except Diagnostic (List Line) :=
  match resolveInclude tree paths name ⟨location.file⟩ with
  | some path => tree.readLines path
  | none => .error (.includeNotFound location name)

/-- A line of an included file, which must not include another one. -/
def includedItem (name : String) (line : Line) : Except Diagnostic Item := do
  let item ← Item.ofLine line
  match item.directive with
  | some (.includeFile nested) =>
      throw ((StructureFault.nestedInclude nested name).at line.location)
  | _ => return item

def includedItems (tree : FileTree) (paths : List Path) (name : String) (location : Location) :
    Except Diagnostic (List Item) := do
  let lines ← loadInclude tree paths name location
  lines.mapM (includedItem name)

end Preprocess

end FortranDeps

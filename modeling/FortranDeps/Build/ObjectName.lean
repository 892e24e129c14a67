import FortranDeps.Diagnostic

/-!
Names of the object files that a build makes of source files: an optional directory, the
stem of the source file and an optional extension.
-/

namespace FortranDeps.Build

structure ObjectNaming where
  directory : String
  extension : String
  deriving DecidableEq, Repr

namespace ObjectNaming

/-- A naming as given by a user: slashes at the end of the directory and dots at the start
of the extension do not matter. -/
def make (directory extension : String) : ObjectNaming where
  directory := String.ofList (directory.toList.reverse.dropWhile (· = '/')).reverse
  extension := String.ofList (extension.toList.dropWhile (· = '.'))

def default : ObjectNaming := make "" "o"

def inDirectory (naming : ObjectNaming) (name : String) : String :=
  if naming.directory = "" then name else naming.directory ++ "/" ++ name

/-- The program that is linked from a source file. -/
def program (naming : ObjectNaming) (source : Path) : String :=
  naming.inDirectory (source.fileStem.getD "")

def object (naming : ObjectNaming) (source : Path) : String :=
  let stem := source.fileStem.getD ""
  naming.inDirectory (if naming.extension = "" then stem else stem ++ "." ++ naming.extension)

end ObjectNaming

/-- Source files with their objects. -/
structure ObjectMap where
  entries : List (Path × String)
  deriving DecidableEq, Repr

namespace ObjectMap

def empty : ObjectMap := ⟨[]⟩

def get? (objects : ObjectMap) (source : Path) : Option String :=
  (objects.entries.find? (·.1.same source)).map (·.2)

def size (objects : ObjectMap) : Nat := objects.entries.length

end ObjectMap

namespace ObjectNaming

/-- Splits sources with their objects into those whose object is new and the clashes with
an earlier source. -/
def assignFrom (naming : ObjectNaming) (taken : List (Path × String)) :
    List Path → List (Path × String) × List Diagnostic
  | [] => (taken, [])
  | source :: rest =>
      let object := naming.object source
      match taken.find? (·.2 == object) with
      | some (first, _) =>
          let (entries, clashes) := naming.assignFrom taken rest
          (entries, .duplicateObject object first source :: clashes)
      | none => naming.assignFrom (taken ++ [(source, object)]) rest

/-- Names the object of every source; two sources must not share one. -/
def assign (naming : ObjectNaming) (sources : List Path) : Except (List Diagnostic) ObjectMap :=
  match naming.assignFrom [] sources with
  | (entries, []) => .ok ⟨entries⟩
  | (_, clashes) => .error clashes

end ObjectNaming

end FortranDeps.Build

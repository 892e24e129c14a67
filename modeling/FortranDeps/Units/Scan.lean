import FortranDeps.Preprocess.Pass
import FortranDeps.Units.Declaration

/-!
The scan of source files. Every file is preprocessed from the same seeds and scanned on
its own, so what one file defines never reaches another, and results come in the order of
the files.
-/

namespace FortranDeps.Units

open Preprocess (MacroTable)

/-- A file that takes part in a run. -/
structure SourceFile where
  path : Path
  /-- Whether the file is compiled without resolving what it uses. -/
  excluded : Bool
  /-- Whether the file takes part whatever the search for sources says. -/
  alwaysInclude : Bool
  deriving DecidableEq, Repr

structure ScannedFile where
  source : SourceFile
  declaration : Declaration
  uses : List UseEdge
  deriving DecidableEq, Repr

/-- What happens after a failure. -/
inductive ErrorMode where
  | accumulate
  | failFast
  deriving DecidableEq, Repr

/-- How the lines of a file are found. -/
inductive Reading where
  | verbatim
  | preprocessed (searchPaths : List Path) (seeds : MacroTable)

def Reading.lines (reading : Reading) (tree : FileTree) (path : Path) :
    Except Diagnostic (List Line) :=
  match reading with
  | verbatim => tree.readLines path
  | preprocessed searchPaths seeds => (Preprocess.preprocessFile tree searchPaths path seeds).1

/-- Scans one file. Of an excluded file only the declaration counts. -/
def scanFile (tree : FileTree) (reading : Reading) (source : SourceFile) :
    Except Diagnostic ScannedFile := do
  let lines ← reading.lines tree source.path
  let declaration ← (findDeclaration lines).toDeclaration source.path
  return ⟨source, declaration, if source.excluded then [] else findUses source.path lines⟩

/-- Scans a file of a run; an excluded file that cannot be scanned is left out. -/
def scanSource (tree : FileTree) (reading : Reading) (source : SourceFile) :
    Except Diagnostic (Option ScannedFile) :=
  match scanFile tree reading source with
  | .ok file => .ok (some file)
  | .error diagnostic => if source.excluded then .ok none else .error diagnostic

/-- The outcomes of the files that are looked at: all of them, or those up to the first
failure. -/
def scanOutcomes (tree : FileTree) (reading : Reading) (mode : ErrorMode) :
    List SourceFile → List (Except Diagnostic (Option ScannedFile))
  | [] => []
  | source :: rest =>
      let outcome := scanSource tree reading source
      match mode, outcome with
      | .failFast, .error _ => [outcome]
      | _, _ => outcome :: scanOutcomes tree reading mode rest

/-- The failures among outcomes if there are any, else the files. -/
def collect (outcomes : List (Except Diagnostic (Option ScannedFile))) :
    Except (List Diagnostic) (List ScannedFile) :=
  let failures := outcomes.filterMap fun outcome =>
    match outcome with
    | .error diagnostic => some diagnostic
    | .ok _ => none
  if failures.isEmpty then
    .ok (outcomes.filterMap fun outcome => outcome.toOption.join)
  else .error failures

def scanFiles (tree : FileTree) (reading : Reading) (mode : ErrorMode) (sources : List SourceFile) :
    Except (List Diagnostic) (List ScannedFile) :=
  collect (scanOutcomes tree reading mode sources)

/-- A report on the progress of a scan. -/
structure ProgressEvent where
  isComplete : Bool
  current : Nat
  total : Nat
  message : String
  deriving DecidableEq, Repr

/-- The reports of a scan: one at its start, one after every ten files and after the last
one, and one at the end if nothing failed. -/
def progressEvents (total looked : Nat) (succeeded : Bool) : List ProgressEvent :=
  let due := (List.range' 1 looked).filter fun current => current % 10 == 0 || current == total
  let steps := due.map fun current =>
    ProgressEvent.mk false current total
      ("Scanned " ++ toString current ++ "/" ++ toString total ++ " files")
  ⟨false, 0, total, "Starting parallel scan..."⟩ :: steps ++
    (if succeeded then [⟨true, total, total, "Scanning complete"⟩] else [])

/-- A scan with its reports. -/
def scanWithProgress (tree : FileTree) (reading : Reading) (mode : ErrorMode)
    (sources : List SourceFile) :
    Except (List Diagnostic) (List ScannedFile) × List ProgressEvent :=
  let outcomes := scanOutcomes tree reading mode sources
  let result := collect outcomes
  (result, progressEvents sources.length outcomes.length result.toBool)

end FortranDeps.Units

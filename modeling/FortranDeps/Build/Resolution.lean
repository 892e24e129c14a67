import FortranDeps.Build.SymbolIndex
import FortranDeps.Units.Scan

/-!
From uses to files: a used module stands for the file that defines it. Uses marked as
intrinsic and modules that come from outside the project are passed over, and a file
never needs itself.
-/

namespace FortranDeps.Build

open FortranDeps.Units

/-- Lower-cased names of modules that come from outside the project. -/
structure SkipSet where
  names : List String
  deriving DecidableEq, Repr

namespace SkipSet

/-- The modules that every compiler provides. -/
def compilerModules : List String := ["iso_c_binding", "iso_fortran_env"]

def ofNames (names : List String) : SkipSet := ⟨(names.map Text.lowerCase).eraseDups⟩

/-- The given modules and those of the compiler. -/
def withDefaults (names : List String) : SkipSet :=
  ⟨(names.map Text.lowerCase ++ compilerModules).eraseDups⟩

def contains (skip : SkipSet) (name : String) : Bool := skip.names.contains name

def size (skip : SkipSet) : Nat := skip.names.length

end SkipSet

/-- What becomes of a use. -/
inductive Resolution where
  | passedOver
  | own
  | needs (file : Path)
  | missing
  deriving DecidableEq, Repr

def resolveUse (user : Path) (index : SymbolIndex) (skip : SkipSet) (edge : UseEdge) : Resolution :=
  if edge.intrinsic || skip.contains edge.name then .passedOver
  else match index.lookup edge.name with
    | some file => if file.same user then .own else .needs file
    | none => .missing

/-- The files that a scanned file needs, in the order of their first use; or all modules
that no file defines. -/
def resolve (file : ScannedFile) (index : SymbolIndex) (skip : SkipSet) :
    Except (List Diagnostic) (List Path) :=
  let outcomes := file.uses.map fun edge => (edge, resolveUse file.source.path index skip edge)
  let failures := outcomes.filterMap fun (edge, resolution) =>
    match resolution with
    | .missing => some (Diagnostic.unresolvedModule edge.name edge.file)
    | _ => none
  if failures.isEmpty then
    .ok (Path.distinct (outcomes.filterMap fun (_, resolution) =>
      match resolution with
      | .needs file => some file
      | _ => none))
  else .error failures

end FortranDeps.Build

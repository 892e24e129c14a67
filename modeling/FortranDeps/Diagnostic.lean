import FortranDeps.Path

/-!
Everything that can go wrong, with the wording of each report. A message starts with
the tag of its kind in brackets, so that long reports can be searched by kind.
-/

namespace FortranDeps

/-- A line of a source file; lines are counted from one. -/
structure Location where
  file : String
  line : Nat
  deriving DecidableEq, Repr

def Location.text (location : Location) : String :=
  location.file ++ ":" ++ toString location.line

inductive Diagnostic where
  | io (path : Path) (reason : String)
  | includeNotFound (location : Location) (name : String)
  | malformedDirective (location : Location) (reason : String)
  | noDeclaration (file : Path)
  | multipleDeclarations (file : Path) (names : List String)
  | duplicateDefinition (name : String) (first second : Path)
  | unresolvedModule (name : String) (file : Path)
  | dependencyCycle (files : List Path)
  | duplicateObject (object : String) (first second : Path)
  | outputExists (path : Path)
  | configuration (reason : String)
  deriving DecidableEq, Repr

namespace Diagnostic

def tag : Diagnostic → String
  | io .. => "Io"
  | includeNotFound .. => "IncludeNotFound"
  | malformedDirective .. => "MalformedDirective"
  | noDeclaration .. => "NoDeclarationFound"
  | multipleDeclarations .. => "MultipleDeclarationsFound"
  | duplicateDefinition .. => "DuplicateDefinition"
  | unresolvedModule .. => "UnresolvedModule"
  | dependencyCycle .. => "DependencyCycle"
  | duplicateObject .. => "DuplicateObject"
  | outputExists .. => "OutputExists"
  | configuration .. => "Config"

def detail : Diagnostic → String
  | io path reason => path.text ++ ": " ++ reason
  | includeNotFound location name =>
      location.text ++ ": cannot find include file '" ++ name ++ "'"
  | malformedDirective location reason => location.text ++ ": " ++ reason
  | noDeclaration file => file.text ++ ": no module or program statement"
  | multipleDeclarations file names =>
      file.text ++ ": found " ++ toString names.length ++ " declarations (" ++
        String.intercalate ", " names ++ ")"
  | duplicateDefinition name first second =>
      "module '" ++ name ++ "' is defined in both " ++ first.text ++ " and " ++ second.text
  | unresolvedModule name file =>
      file.text ++ ": module '" ++ name ++ "' is not defined in any file"
  | dependencyCycle files =>
      "circular module dependency: " ++ String.intercalate " -> " (files.map Path.text)
  | duplicateObject object first second =>
      first.text ++ " and " ++ second.text ++ " both compile to '" ++ object ++ "'"
  | outputExists path => path.text ++ " already exists (pass --overwrite to replace it)"
  | configuration reason => reason

def message (diagnostic : Diagnostic) : String :=
  "[" ++ diagnostic.tag ++ "] " ++ diagnostic.detail

/-- Whether the fault can only be seen once every file has been scanned. -/
def isGlobal : Diagnostic → Bool
  | duplicateDefinition .. | unresolvedModule .. | dependencyCycle .. | duplicateObject .. => true
  | _ => false

/-- The text of several diagnostics, one on each line after their number. -/
def report (diagnostics : List Diagnostic) : String :=
  toString diagnostics.length ++ " error(s):" ++
    String.join (diagnostics.map fun diagnostic => "\n  " ++ diagnostic.message)

end Diagnostic

end FortranDeps

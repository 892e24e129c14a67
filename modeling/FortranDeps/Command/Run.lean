import FortranDeps.Command.Request
import FortranDeps.JsonValue
import FortranDeps.Project
import FortranDeps.Settings.File

/-!
Running a command line on a file tree. The exit code is zero for success, one for a
failure of the run and two for a command line that cannot be read.
-/

namespace FortranDeps.Command

/-- What a run prints and returns. -/
structure Outcome where
  exitCode : Nat
  output : String := ""
  errors : String := ""
  deriving DecidableEq, Repr

def Outcome.success (output : String) : Outcome := { exitCode := 0, output }

/-- A failure, with the reasons behind it from the nearest to the deepest. -/
structure Failure where
  message : String
  causes : List String := []
  deriving DecidableEq, Repr

namespace Failure

/-- A text after a mark, with its further lines indented as far as the first. -/
def hanging (mark indent text : String) : String :=
  mark ++ String.intercalate ("\n" ++ indent) ((Text.splitOn '\n' text.toList).map String.ofList)

/-- Several causes are numbered. -/
def causeLines : List String → List String
  | [cause] => [hanging "    " "    " cause]
  | causes => causes.mapIdx fun number cause =>
      hanging ("    " ++ toString number ++ ": ") "       " cause

def text (failure : Failure) : String :=
  "Error: " ++ failure.message ++ "\n" ++
    (if failure.causes.isEmpty then ""
    else "\nCaused by:\n" ++ String.intercalate "\n" (causeLines failure.causes) ++ "\n")

/-- A diagnostic about a file names the fault of the file system as its cause. -/
def ofDiagnostic (diagnostic : Diagnostic) : Failure :=
  match diagnostic with
  | .io _ reason => ⟨diagnostic.message, [reason]⟩
  | _ => ⟨diagnostic.message, []⟩

def ofDiagnostics (diagnostics : List Diagnostic) : Failure := ⟨Diagnostic.report diagnostics, []⟩

/-- A failure that is the cause of another one. -/
def within (failure : Failure) (context : String) : Failure :=
  ⟨context, failure.message :: failure.causes⟩

def outcome (failure : Failure) : Outcome := { exitCode := 1, errors := failure.text }

end Failure

def lines (texts : List String) : String := String.join (texts.map (· ++ "\n"))

def entryJson (entry : Project.OrderEntry) : JsonValue :=
  .object [("file", .text entry.file.text), ("object", .ofOption entry.object),
    ("kind", .ofOption (entry.kind.map (·.name))), ("name", .ofOption entry.name),
    ("excluded", .bool entry.excluded),
    ("prerequisites", .array (entry.prerequisites.map fun path => .text path.text))]

def runDeps (tree : FileTree) (settings : Settings) : Except Failure String × FileTree :=
  match Project.run tree settings with
  | (.error failures, tree) => (.error (.ofDiagnostics failures), tree)
  | (.ok analysis, tree) =>
      (.ok (toString analysis.files.length ++ " file(s), " ++
        toString analysis.listing.edges.length ++ " dependency edge(s) written to " ++
        settings.output.listing.text ++ "\n"), tree)

def runOrder (tree : FileTree) (settings : Settings) (format : Format) : Except Failure String := do
  let analysis ← (Project.analyze tree settings).mapError Failure.ofDiagnostics
  match format with
  | .text =>
      let order ← analysis.compileOrder.mapError Failure.ofDiagnostic
      return lines (order.map Path.text)
  | .json =>
      let entries ← analysis.orderEntries.mapError Failure.ofDiagnostic
      return (JsonValue.array (entries.map entryJson)).render ++ "\n"

/-- The text of a preprocessed file. -/
def preprocessedText (tree : FileTree) (settings : PreprocessSettings) (input : Path) :
    Except Diagnostic String := do
  let seeds ← Preprocess.MacroTable.ofSeeds settings.seeds
  let search := Preprocess.searchPaths settings.searchPaths
  return lines ((← (Preprocess.preprocessFile tree search input seeds).1).map (·.text))

def runPreprocess (tree : FileTree) (settings : PreprocessSettings) (input : Path)
    (output : Option Path) (overwrite : Bool) : Except Failure String × FileTree :=
  match preprocessedText tree settings input, output with
  | .error diagnostic, _ => (.error (.ofDiagnostic diagnostic), tree)
  | .ok text, none => (.ok text, tree)
  | .ok text, some path =>
      match tree.writeFile path text.toUTF8 overwrite with
      | (.ok (), tree) => (.ok "", tree)
      | (.error diagnostic, tree) =>
          (.error ((Failure.ofDiagnostic diagnostic).within
            ("writing preprocessed " ++ input.text)), tree)

def loadSettings (tree : FileTree) : Option Path → Except Diagnostic Settings
  | none => .ok {}
  | some path => Settings.load tree path

/-- Carries out a request; the result is the text to print. -/
def perform (tree : FileTree) (request : Request) : Except Failure String × FileTree :=
  match loadSettings tree request.config with
  | .error diagnostic => (.error (.ofDiagnostic diagnostic), tree)
  | .ok base =>
      let settings := request.settings base
      match request.action with
      | .deps => runDeps tree settings
      | .order format => (runOrder tree settings format, tree)
      | .preprocess input output overwrite =>
          runPreprocess tree settings.preprocess input output overwrite

def version : String := "moddep 0.1.0\n"

def usage : String :=
  "Usage: moddep [-c FILE] [-v...] deps|order [PROJECT OPTIONS]\n" ++
    "       moddep [-c FILE] [-v...] preprocess [OPTIONS] FILE\n"

def Stop.message : Stop → String
  | .information _ => ""
  | .unknownOption argument => "unexpected argument '" ++ argument ++ "' found"
  | .missingValue option => "a value is required for '--" ++ option ++ "' but none was supplied"
  | .unwantedValue option => "unexpected value for '--" ++ option ++ "' found"
  | .invalidValue option value => "invalid value '" ++ value ++ "' for '--" ++ option ++ "'"
  | .repeated option => "the argument '--" ++ option ++ "' cannot be used multiple times"
  | .unexpected argument => "unexpected argument '" ++ argument ++ "' found"
  | .unknownCommand name => "unrecognized subcommand '" ++ name ++ "'"
  | .missingCommand => "a subcommand is required"
  | .missingInput => "the required argument FILE was not provided"

def Stop.outcome : Stop → Outcome
  | .information .version => .success version
  | .information _ => .success usage
  | stop => { exitCode := 2, errors := "error: " ++ stop.message ++ "\n\n" ++ usage }

/-- Runs a command line. -/
def run (tree : FileTree) (arguments : List String) : Outcome × FileTree :=
  match Request.parse arguments with
  | .error stop => (stop.outcome, tree)
  | .ok request =>
      match perform tree request with
      | (.ok output, tree) => (.success output, tree)
      | (.error failure, tree) => (failure.outcome, tree)

end FortranDeps.Command

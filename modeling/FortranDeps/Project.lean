import FortranDeps.Build.DependencyGraph
import FortranDeps.Build.Listing
import FortranDeps.Build.ObjectName
import FortranDeps.Discovery
import FortranDeps.Files.Staging

/-!
A whole run: find the sources, scan them, index what they declare, resolve what they use,
and list the dependencies of their objects. The index is complete before any use is
resolved. Output files are written only once all of them are ready.
-/

namespace FortranDeps.Project

open Build FortranDeps.Units

/-- Everything that a successful analysis knows. -/
structure Analysis where
  sources : List SourceFile
  /-- The scanned files; excluded files that could not be scanned are missing. -/
  files : List ScannedFile
  index : SymbolIndex
  objects : ObjectMap
  graph : DependencyGraph
  listing : Listing

/-- A file in compile order, with what is known about it. -/
structure OrderEntry where
  file : Path
  object : Option String
  kind : Option UnitKind
  name : Option String
  excluded : Bool
  prerequisites : List Path
  deriving DecidableEq, Repr

namespace Analysis

/-- The objects of all sources. -/
def manifest (analysis : Analysis) : List String :=
  analysis.sources.filterMap fun source => analysis.objects.get? source.path

def compileOrder (analysis : Analysis) : Except Diagnostic (List Path) :=
  analysis.graph.compileOrder

def orderEntry (analysis : Analysis) (file : Path) : OrderEntry :=
  let scanned := analysis.files.find? (·.source.path.same file)
  { file
    object := analysis.objects.get? file
    kind := scanned.map (·.declaration.kind)
    name := scanned.map (·.declaration.name)
    excluded := scanned.any (·.source.excluded)
    prerequisites := analysis.graph.prerequisites file }

def orderEntries (analysis : Analysis) : Except Diagnostic (List OrderEntry) := do
  return (← analysis.compileOrder).map analysis.orderEntry

end Analysis

/-- Collects the failures of a run, in the way of an error mode. -/
structure Reporter where
  mode : ErrorMode
  failures : List Diagnostic
  deriving DecidableEq, Repr

namespace Reporter

def start (mode : ErrorMode) : Reporter := ⟨mode, []⟩

/-- Takes failures down. Without accumulation the first of them ends the run. -/
def record (reporter : Reporter) (failures : List Diagnostic) : Except (List Diagnostic) Reporter :=
  match reporter.mode with
  | .accumulate => .ok { reporter with failures := reporter.failures ++ failures }
  | .failFast => .error (failures.take 1)

/-- Ends a stage: whatever was taken down so far ends the run. -/
def checkpoint (reporter : Reporter) : Except (List Diagnostic) Reporter :=
  if reporter.failures.isEmpty then .ok { reporter with failures := [] }
  else .error reporter.failures

/-- The value of a result. If it failed, its failures are taken down and another value stands in
for it. -/
def attempt {Value : Type} (reporter : Reporter) (fallback : Value)
    (result : Except (List Diagnostic) Value) : Except (List Diagnostic) (Value × Reporter) :=
  match result with
  | .ok value => .ok (value, reporter)
  | .error failures => do return (fallback, ← reporter.record failures)

/-- Takes items into a state one after the other. An item that fails leaves the state as it is, and
its failures are taken down before the next item is looked at. -/
def attemptAll {State Item : Type} (step : State → Item → Except (List Diagnostic) State) :
    Reporter → State → List Item → Except (List Diagnostic) (State × Reporter)
  | reporter, state, [] => .ok (state, reporter)
  | reporter, state, item :: rest => do
      let (state, reporter) ← reporter.attempt state (step state item)
      attemptAll step reporter state rest

end Reporter

/-- A single failure. -/
def orFail {Value : Type} (result : Except Diagnostic Value) : Except (List Diagnostic) Value :=
  result.mapError fun diagnostic => [diagnostic]

def indexFile (index : SymbolIndex) (file : ScannedFile) : Except (List Diagnostic) SymbolIndex :=
  orFail (index.insert file.declaration)

/-- Adds a file to the graph. An excluded file is added without what it uses. -/
def resolveFile (index : SymbolIndex) (skip : SkipSet) (graph : DependencyGraph)
    (file : ScannedFile) : Except (List Diagnostic) DependencyGraph :=
  if file.source.excluded then .ok (graph.addFile file.source.path [])
  else do return graph.addFile file.source.path (← resolve file index skip)

/-- The index of all declarations whose names are not taken. -/
def indexFiles (reporter : Reporter) (files : List ScannedFile) :
    Except (List Diagnostic) (SymbolIndex × Reporter) :=
  reporter.attemptAll indexFile SymbolIndex.empty files

/-- The dependency graph of all files whose uses can be resolved. -/
def resolveFiles (index : SymbolIndex) (skip : SkipSet) (reporter : Reporter)
    (files : List ScannedFile) : Except (List Diagnostic) (DependencyGraph × Reporter) :=
  reporter.attemptAll (resolveFile index skip) DependencyGraph.empty files

def objectOf (objects : ObjectMap) (file : Path) : String := (objects.get? file).getD ""

/-- The objects that a program is linked from. -/
def linkedObjects (objects : ObjectMap) (graph : DependencyGraph) (program : Path) : List String :=
  sorted ((graph.transitivePrerequisites program).map (objectOf objects) ++
    [objectOf objects program])

def buildListing (settings : OutputSettings) (objects : ObjectMap) (graph : DependencyGraph)
    (files : List ScannedFile) : Listing :=
  let naming := ObjectNaming.make settings.objectDirectory settings.objectExtension
  let checked := files.filter (!·.source.excluded)
  let edges := checked.foldl (fun listing file =>
    listing.addTarget (objectOf objects file.source.path)
      ((graph.prerequisites file.source.path).map (objectOf objects))) Listing.empty
  if settings.linkRules then
    (checked.filter (·.declaration.kind == .mainProgram)).foldl (fun listing file =>
      listing.addLinkRule (naming.program file.source.path)
        (linkedObjects objects graph file.source.path)) edges
  else edges

def reading (settings : PreprocessSettings) : Except Diagnostic Reading :=
  if settings.enabled then do
    let seeds ← Preprocess.MacroTable.ofSeeds settings.seeds
    return .preprocessed (Preprocess.searchPaths settings.searchPaths) seeds
  else .ok .verbatim

/-- Analyses a project without writing anything. -/
def analyze (tree : FileTree) (settings : Settings) : Except (List Diagnostic) Analysis := do
  let mode := settings.resolve.mode
  let sources ← orFail (Discovery.discover tree settings.discovery)
  let reading ← orFail (reading settings.preprocess)
  let files ← scanFiles tree reading mode sources
  let (index, reporter) ← indexFiles (Reporter.start mode) files
  let naming := ObjectNaming.make settings.output.objectDirectory settings.output.objectExtension
  let (objects, reporter) ←
    reporter.attempt ObjectMap.empty (naming.assign (sources.map (·.path)))
  let reporter ← reporter.checkpoint
  let skip := SkipSet.withDefaults settings.resolve.skipModules
  let (graph, reporter) ← resolveFiles index skip reporter files
  let _ ← reporter.checkpoint
  orFail graph.checkAcyclic
  return ⟨sources, files, index, objects, graph, buildListing settings.output objects graph files⟩

/-- Commits staged writes in order. After a failure the remaining ones are dropped. -/
def commitAll : List StagedWrite → FileTree → Except Diagnostic Unit × FileTree
  | [], tree => (.ok (), tree)
  | staged :: rest, tree =>
      match staged.commit tree with
      | (.ok (), tree) => commitAll rest tree
      | (.error diagnostic, tree) =>
          (.error diagnostic, rest.foldl (fun tree staged => staged.drop tree) tree)

/-- Stages outputs in order. After a failure those staged before are dropped. -/
def stageAll (overwrite : Bool) :
    List (Path × String) → FileTree → Except Diagnostic (List StagedWrite) × FileTree
  | [], tree => (.ok [], tree)
  | (path, text) :: rest, tree =>
      match StagedWrite.stage tree path text.toUTF8 overwrite with
      | .error diagnostic => (.error diagnostic, tree)
      | .ok (staged, tree) =>
          match stageAll overwrite rest tree with
          | (.ok later, tree) => (.ok (staged :: later), tree)
          | (.error diagnostic, tree) => (.error diagnostic, staged.drop tree)

/-- The files that a run writes: the listing, and the manifest if directories were
searched. -/
def outputs (settings : Settings) (analysis : Analysis) : List (Path × String) :=
  (settings.output.listing, analysis.listing.render) ::
    (if settings.isAutomatic then
      [(settings.output.manifest, renderManifest analysis.manifest)]
    else [])

/-- Analyses a project and writes its output files. -/
def run (tree : FileTree) (settings : Settings) :
    Except (List Diagnostic) Analysis × FileTree :=
  match analyze tree settings with
  | .error failures => (.error failures, tree)
  | .ok analysis =>
      match stageAll settings.output.overwrite (outputs settings analysis) tree with
      | (.error diagnostic, tree) => (.error [diagnostic], tree)
      | (.ok staged, tree) =>
          match commitAll staged tree with
          | (.error diagnostic, tree) => (.error [diagnostic], tree)
          | (.ok (), tree) => (.ok analysis, tree)

end FortranDeps.Project

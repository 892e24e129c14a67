import FortranDeps.Proofs.Build.CompileOrder
import FortranDeps.Proofs.Build.Resolution

/-!
The stages of a successful analysis, and what each of them guarantees to the next. The
scanned files are a part of the sources, in their order; no two sources share an object;
the graph is built by one call for each scanned file.
-/

namespace FortranDeps.Project

open Build FortranDeps.Units

theorem bind_eq_ok {Fault First Second : Type} {first : Except Fault First}
    {next : First → Except Fault Second} {result : Second} :
    (first >>= next) = .ok result ↔ ∃ value, first = .ok value ∧ next value = .ok result := by
  cases first with
  | error fault =>
      constructor
      · intro impossible
        cases impossible
      · rintro ⟨value, impossible, -⟩
        cases impossible
  | ok value =>
      constructor
      · intro outcome
        exact ⟨value, rfl, outcome⟩
      · rintro ⟨_, same, outcome⟩
        cases same
        exact outcome

theorem or_fail_eq_ok {Value : Type} {result : Except Diagnostic Value} {value : Value} :
    orFail result = .ok value ↔ result = .ok value := by
  unfold orFail
  cases result <;> simp [Except.mapError]

/-- The naming of objects that the settings ask for. -/
def naming (settings : Settings) : ObjectNaming :=
  ObjectNaming.make settings.output.objectDirectory settings.output.objectExtension

def skipSet (settings : Settings) : SkipSet := SkipSet.withDefaults settings.resolve.skipModules

/-- The graph of the files, with the uses that could not be resolved. -/
def gatherGraph (index : SymbolIndex) (skip : SkipSet) (files : List ScannedFile) :
    DependencyGraph × List Diagnostic :=
  gather (resolveFile index skip) DependencyGraph.empty files

/-- An analysis stage by stage. In both modes it is as if a stage looked at all of its items before
it stops on their failures. -/
theorem analyze_eq_stages (tree : FileTree) (settings : Settings) :
    analyze tree settings = (do
      let sources ← orFail (Discovery.discover tree settings.discovery)
      let lines ← orFail (reading settings.preprocess)
      let files ← scanFiles tree lines settings.resolve.mode sources
      let assigned := (naming settings).assign (sources.map (·.path))
      stopOn settings.resolve.mode ((gatherIndex files).2 ++ reported assigned)
      let index := (gatherIndex files).1
      let objects := assigned.toOption.getD ObjectMap.empty
      stopOn settings.resolve.mode (gatherGraph index (skipSet settings) files).2
      let graph := (gatherGraph index (skipSet settings) files).1
      orFail graph.checkAcyclic
      return ⟨sources, files, index, objects, graph,
        buildListing settings.output objects graph files⟩) := by
  have complains (sources : List SourceFile) :=
    (naming settings).assign_ne_nil (sources.map (·.path))
  unfold naming at complains ⊢
  unfold analyze indexFiles resolveFiles
  -- Each loop and each attempt absorbs its failures, and a checkpoint closes the stage.
  simp only [Reporter.attempt_all_eq index_complains,
    Reporter.attempt_all_eq (resolve_complains _ _), Reporter.attempt_eq _ _ (complains _),
    bind_map_left, Reporter.absorb_absorb, checkpoint_absorbed]
  rfl

/-- What the stages up to the scan have given. -/
structure Scanned (tree : FileTree) (settings : Settings) (lines : Reading)
    (sources : List SourceFile) (files : List ScannedFile) : Prop where
  discovered : Discovery.discover tree settings.discovery = .ok sources
  read : reading settings.preprocess = .ok lines
  scanned : scanFiles tree lines settings.resolve.mode sources = .ok files

/-- What the stages have given once every use is resolved. -/
structure Resolved (tree : FileTree) (settings : Settings) (lines : Reading)
    (analysis : Analysis) : Prop
    extends Scanned tree settings lines analysis.sources analysis.files where
  indexed : gatherIndex analysis.files = (analysis.index, [])
  assigned : (naming settings).assign (analysis.sources.map (·.path)) = .ok analysis.objects
  resolved : gatherGraph analysis.index (skipSet settings) analysis.files = (analysis.graph, [])

/-- What each stage of an analysis has given. -/
structure Stages (tree : FileTree) (settings : Settings) (lines : Reading)
    (analysis : Analysis) : Prop extends Resolved tree settings lines analysis where
  acyclic : analysis.graph.checkAcyclic = .ok ()
  listed : analysis.listing =
    buildListing settings.output analysis.objects analysis.graph analysis.files

theorem analyze_eq_ok {tree : FileTree} {settings : Settings} {analysis : Analysis} :
    analyze tree settings = .ok analysis ↔ ∃ lines, Stages tree settings lines analysis := by
  rw [analyze_eq_stages]
  simp only [bind_eq_ok, or_fail_eq_ok, stop_on_eq_ok]
  constructor
  · rintro ⟨sources, discovered, lines, read, files, scanned, -, unclashed, -, resolved, _, acyclic,
      same⟩
    obtain rfl := Except.ok.inj same
    obtain ⟨indexed, unshared⟩ := List.append_eq_nil_iff.mp unclashed
    refine ⟨lines, ⟨⟨discovered, read, scanned⟩, Prod.ext rfl indexed, ?_, Prod.ext rfl resolved⟩,
      acyclic, rfl⟩
    exact eq_ok_of_reported ((naming settings).assign_ne_nil _) unshared
  · rintro ⟨lines, ⟨⟨discovered, read, scanned⟩, indexed, assigned, resolved⟩, acyclic, listed⟩
    refine ⟨analysis.sources, discovered, lines, read, analysis.files, scanned, (), ?_, (), ?_, (),
      ?_, ?_⟩
    · rw [indexed, assigned]
      rfl
    · rw [indexed, resolved]
    · rw [indexed, resolved]
      exact acyclic
    · rw [indexed, assigned, resolved]
      simp only [Except.toOption, Option.getD_some]
      rw [← listed]
      rfl

/-! Scanning. -/

theorem scan_file_eq_ok {tree : FileTree} {lines : Reading} {source : SourceFile}
    {file : ScannedFile} (scanned : scanFile tree lines source = .ok file) :
    file.source = source ∧ file.declaration.file = source.path := by
  unfold scanFile at scanned
  simp only [bind_eq_ok] at scanned
  obtain ⟨_, -, declaration, declared, same⟩ := scanned
  obtain rfl := Except.ok.inj same
  refine ⟨rfl, ?_⟩
  unfold DeclarationSearch.toDeclaration at declared
  split at declared
  · cases declared
    rfl
  · cases declared
  · cases declared

theorem scan_file_of_outcome {tree : FileTree} {lines : Reading} {source : SourceFile}
    {file : ScannedFile} (outcome : (scanSource tree lines source).toOption.join = some file) :
    scanFile tree lines source = .ok file := by
  unfold scanSource at outcome
  split at outcome
  · next found => rw [found, Option.some.inj outcome]
  · split at outcome <;> cases outcome

theorem collect_eq_ok {outcomes : List (Except Diagnostic (Option ScannedFile))}
    {files : List ScannedFile} :
    collect outcomes = .ok files ↔
      (∀ diagnostic, .error diagnostic ∉ outcomes) ∧
        outcomes.filterMap (fun outcome => outcome.toOption.join) = files := by
  unfold collect
  simp only [List.isEmpty_iff]
  split
  · next fine =>
      have none : ∀ diagnostic, .error diagnostic ∉ outcomes := by
        intro diagnostic member
        cases List.filterMap_eq_nil_iff.mp fine _ member
      rw [Except.ok.injEq]
      exact (and_iff_right none).symm
  · next failed =>
      constructor
      · intro impossible
        cases impossible
      · rintro ⟨none, -⟩
        refine absurd (List.filterMap_eq_nil_iff.mpr ?_) failed
        rintro (diagnostic | scanned) member
        · exact absurd member (none diagnostic)
        · rfl

/-- Every source is looked at, or the scan stops at a failure. -/
theorem scan_outcomes_cases (tree : FileTree) (lines : Reading) (mode : ErrorMode)
    (sources : List SourceFile) :
    scanOutcomes tree lines mode sources = sources.map (scanSource tree lines) ∨
      ∃ diagnostic, .error diagnostic ∈ scanOutcomes tree lines mode sources ∧
        .error diagnostic ∈ sources.map (scanSource tree lines) := by
  induction sources with
  | nil => exact .inl rfl
  | cons source rest induction =>
      unfold scanOutcomes
      simp only
      split
      · next diagnostic failed =>
          exact .inr ⟨diagnostic, by simp [failed], by simp [failed]⟩
      · rcases induction with same | ⟨diagnostic, looked, found⟩
        · left
          rw [same, List.map_cons]
        · right
          exact ⟨diagnostic, List.mem_cons_of_mem _ looked, List.mem_cons_of_mem _ found⟩

/-- A scan succeeds exactly if no source fails. -/
theorem scan_files_eq_ok {tree : FileTree} {lines : Reading} {mode : ErrorMode}
    {sources : List SourceFile} {files : List ScannedFile} :
    scanFiles tree lines mode sources = .ok files ↔
      (∀ source ∈ sources, ∀ diagnostic, scanSource tree lines source ≠ .error diagnostic) ∧
        sources.filterMap (fun source => (scanSource tree lines source).toOption.join) = files := by
  have passed : (∀ diagnostic, .error diagnostic ∉ sources.map (scanSource tree lines)) ↔
      ∀ source ∈ sources, ∀ diagnostic, scanSource tree lines source ≠ .error diagnostic := by
    simp only [List.mem_map, not_exists, not_and]
    exact ⟨fun none source member diagnostic => none diagnostic source member,
      fun none diagnostic source member => none source member diagnostic⟩
  unfold scanFiles
  rw [collect_eq_ok, ← passed]
  rcases scan_outcomes_cases tree lines mode sources with same | ⟨diagnostic, looked, found⟩
  · rw [same, List.filterMap_map]
    rfl
  · constructor
    · rintro ⟨none, -⟩
      exact absurd looked (none diagnostic)
    · rintro ⟨none, -⟩
      exact absurd found (none diagnostic)

/-- The scanned files come from the sources, in their order. -/
theorem Scanned.scanned_files {tree : FileTree} {settings : Settings} {lines : Reading}
    {sources : List SourceFile} {files : List ScannedFile}
    (stages : Scanned tree settings lines sources files) :
    (files.map (·.source)).Sublist sources ∧
      ∀ file ∈ files, scanFile tree lines file.source = .ok file := by
  obtain ⟨-, rfl⟩ := scan_files_eq_ok.mp stages.scanned
  have own {source : SourceFile} {file : ScannedFile}
      (outcome : (scanSource tree lines source).toOption.join = some file) :
      file.source = source := (scan_file_eq_ok (scan_file_of_outcome outcome)).1
  constructor
  · have kept : sources.filterMap (fun source =>
          (scanSource tree lines source).toOption.join.map (·.source)) =
        sources.filter fun source => (scanSource tree lines source).toOption.join.isSome := by
      rw [← List.filterMap_eq_filter]
      apply List.filterMap_congr
      intro source _
      cases outcome : (scanSource tree lines source).toOption.join with
      | none => simp [Option.guard, outcome]
      | some file => simp [Option.guard, outcome, own outcome]
    rw [List.map_filterMap, kept]
    exact List.filter_sublist
  · intro file member
    obtain ⟨source, -, outcome⟩ := List.mem_filterMap.mp member
    rw [own outcome]
    exact scan_file_of_outcome outcome

/-! Objects. -/

/-- The object of a source. -/
def objectOfSource (settings : Settings) (source : SourceFile) : String :=
  (naming settings).object source.path

/-- The object of a scanned file. -/
def objectOfFile (settings : Settings) (file : ScannedFile) : String :=
  (naming settings).object file.source.path

namespace Resolved

variable {tree : FileTree} {settings : Settings} {lines : Reading} {analysis : Analysis}

theorem sources_nodup (stages : Resolved tree settings lines analysis) :
    (analysis.sources.map (objectOfSource settings)).Nodup := by
  have all := ((naming settings).assign_eq stages.assigned).2
  rw [List.map_map] at all
  exact all

theorem objects_nodup (stages : Resolved tree settings lines analysis) :
    (analysis.files.map (objectOfFile settings)).Nodup := by
  have part := stages.scanned_files.1.map (objectOfSource settings)
  rw [List.map_map] at part
  exact stages.sources_nodup.sublist part

/-- Scanned files with equal objects, or with equal paths, are the same file. -/
theorem eq_of_object (stages : Resolved tree settings lines analysis) {first second : ScannedFile}
    (inFirst : first ∈ analysis.files) (inSecond : second ∈ analysis.files)
    (same : objectOfFile settings first = objectOfFile settings second) : first = second :=
  List.inj_on_of_nodup_map stages.objects_nodup inFirst inSecond same

theorem eq_of_components (stages : Resolved tree settings lines analysis)
    {first second : ScannedFile} (inFirst : first ∈ analysis.files)
    (inSecond : second ∈ analysis.files)
    (same : first.source.path.components = second.source.path.components) : first = second :=
  stages.eq_of_object inFirst inSecond ((naming settings).object_congr same)

theorem get?_file (stages : Resolved tree settings lines analysis) {file : ScannedFile}
    (member : file ∈ analysis.files) {path : Path}
    (same : file.source.path.components = path.components) :
    analysis.objects.get? path = some (objectOfFile settings file) := by
  have source : file.source.path ∈ analysis.sources.map (·.path) :=
    List.mem_map_of_mem (stages.scanned_files.1.mem (List.mem_map_of_mem member))
  rw [(naming settings).get?_assigned stages.assigned source same, objectOfFile,
    (naming settings).object_congr same]

end Resolved

/-! The graph. -/

/-- What a file is added to the graph with. -/
def needed (index : SymbolIndex) (skip : SkipSet) (file : ScannedFile) : List Path :=
  if file.source.excluded then [] else (resolve file index skip).toOption.getD []

theorem reported_resolve (index : SymbolIndex) (skip : SkipSet) (graph : DependencyGraph)
    (file : ScannedFile) :
    reported (resolveFile index skip graph file) =
      if file.source.excluded then [] else (missingEdges index skip file).map unresolved := by
  unfold resolveFile
  by_cases excluded : file.source.excluded = true
  · rw [if_pos excluded, if_pos excluded]
    rfl
  · rw [if_neg excluded, if_neg excluded]
    rcases resolve_cases file index skip with ⟨none, prerequisites, resolved⟩ | ⟨-, failed⟩
    · rw [resolved, none]
      rfl
    · rw [failed]
      rfl

/-- What is missing are the uses of the files that are checked, in the order of the files. -/
theorem missing_gather (index : SymbolIndex) (skip : SkipSet) (files : List ScannedFile)
    (graph : DependencyGraph) :
    (gather (resolveFile index skip) graph files).2 =
      (files.filter (!·.source.excluded)).flatMap fun file =>
        (missingEdges index skip file).map unresolved := by
  induction files generalizing graph with
  | nil => rfl
  | cons file rest induction =>
      rw [gather_cons, induction, reported_resolve]
      cases excluded : file.source.excluded with
      | true => simp [excluded]
      | false => simp [excluded]

theorem resolve_file_eq {index : SymbolIndex} {skip : SkipSet} {graph : DependencyGraph}
    {file : ScannedFile} (fine : reported (resolveFile index skip graph file) = []) :
    resolveFile index skip graph file =
        .ok (graph.addFile file.source.path (needed index skip file)) ∧
      (file.source.excluded = false → resolve file index skip = .ok (needed index skip file)) := by
  unfold resolveFile at fine ⊢
  unfold needed
  by_cases excluded : file.source.excluded = true
  · simp [excluded]
  · rw [if_neg excluded] at fine ⊢
    rw [if_neg excluded]
    cases outcome : resolve file index skip with
    | ok prerequisites => exact ⟨rfl, fun _ => rfl⟩
    | error failures =>
        rw [outcome] at fine
        exact absurd fine (resolve_failures_ne_nil outcome)

/-- Without missing modules the graph has one call for each file. -/
theorem gather_graph_eq {index : SymbolIndex} {skip : SkipSet} {files : List ScannedFile}
    {graph : DependencyGraph} (fine : (gather (resolveFile index skip) graph files).2 = []) :
    (gather (resolveFile index skip) graph files).1 =
        graph.addFiles (files.map fun file => (file.source.path, needed index skip file)) ∧
      ∀ file ∈ files, file.source.excluded = false →
        resolve file index skip = .ok (needed index skip file) := by
  induction files generalizing graph with
  | nil => exact ⟨rfl, by simp⟩
  | cons file rest induction =>
      rw [gather_cons] at fine ⊢
      obtain ⟨unreported, others⟩ := List.append_eq_nil_iff.mp fine
      obtain ⟨added, own⟩ := resolve_file_eq unreported
      rw [added] at others ⊢
      obtain ⟨all, later⟩ := induction others
      refine ⟨all, ?_⟩
      intro other member
      rcases List.mem_cons.mp member with rfl | inRest
      · exact own
      · exact later other inRest

namespace Resolved

variable {tree : FileTree} {settings : Settings} {lines : Reading} {analysis : Analysis}

theorem graph_eq (stages : Resolved tree settings lines analysis) :
    analysis.graph = DependencyGraph.ofCalls (analysis.files.map fun file =>
        (file.source.path, needed analysis.index (skipSet settings) file)) ∧
      ∀ file ∈ analysis.files, file.source.excluded = false →
        resolve file analysis.index (skipSet settings) =
          .ok (needed analysis.index (skipSet settings) file) := by
  have spec := gather_graph_eq (congrArg Prod.snd stages.resolved)
  rw [← gatherGraph, stages.resolved] at spec
  exact spec

theorem prerequisites_file (stages : Resolved tree settings lines analysis) {file : ScannedFile}
    (member : file ∈ analysis.files) :
    (analysis.graph.prerequisites file.source.path).map Path.components =
      (needed analysis.index (skipSet settings) file).map Path.components := by
  obtain ⟨before, after, split⟩ := List.append_of_mem member
  rw [stages.graph_eq.1, DependencyGraph.prerequisites_of_calls, split, List.map_append,
    List.map_cons, DependencyGraph.added_with_last]
  intro call inAfter same
  obtain ⟨other, later, rfl⟩ := List.mem_map.mp inAfter
  have inFiles : other ∈ analysis.files := by simp [split, later]
  have equal := stages.eq_of_components member inFiles same.symm
  have nodup := stages.objects_nodup.of_map
  rw [split] at nodup
  exact (List.nodup_cons.mp (List.nodup_append'.mp nodup).2.1).1 (equal ▸ later)

end Resolved

end FortranDeps.Project

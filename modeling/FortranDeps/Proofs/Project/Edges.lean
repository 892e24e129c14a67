import FortranDeps.Proofs.Build.FirstMention
import FortranDeps.Proofs.Project.Stages

/-!
The edges of the listing, in terms of the scanned files. There is an edge between the
objects of two files exactly if the first one uses the unit that the second one declares.
Edges stand together by their target, in the order of the files, and none is repeated.
-/

namespace FortranDeps.Project

open Build FortranDeps.Units

/-- A use that has to be resolved: not marked as intrinsic, and not of a module that comes
from outside the project. -/
def MustResolve (settings : Settings) (edge : UseEdge) : Prop :=
  edge.intrinsic = false ∧ edge.name ∉ settings.resolve.skipModules.map Text.lowerCase ∧
    edge.name ∉ SkipSet.compilerModules

/-- A file uses the unit that another file declares. -/
def UsesUnit (settings : Settings) (file used : ScannedFile) : Prop :=
  ∃ edge ∈ file.uses, MustResolve settings edge ∧ edge.name = used.declaration.name

theorem must_resolve_iff (settings : Settings) (edge : UseEdge) :
    MustResolve settings edge ↔
      edge.intrinsic = false ∧ (skipSet settings).contains edge.name = false := by
  unfold MustResolve skipSet SkipSet.withDefaults SkipSet.contains
  rw [List.contains_eq_mem, decide_eq_false_iff_not, List.mem_eraseDups, List.mem_append, not_or]

/-- The objects that are listed for a file. -/
def listedObjects (analysis : Analysis) (file : ScannedFile) : List String :=
  (sorted ((analysis.graph.prerequisites file.source.path).map
    (objectOf analysis.objects))).eraseReps

theorem listed_objects_strict (analysis : Analysis) (file : ScannedFile) :
    (listedObjects analysis file).Pairwise (· < ·) :=
  (erase_reps_ascending (sorted_ascending _)).1

/-- The paths whose objects a listing is made from: those of the files that are checked,
and of what they need directly or indirectly. -/
def lookups (graph : DependencyGraph) (files : List ScannedFile) : List Path :=
  (files.filter (!·.source.excluded)).flatMap fun file =>
    file.source.path :: (graph.prerequisites file.source.path ++
      graph.transitivePrerequisites file.source.path)

/-- No other path is looked up. -/
theorem build_listing_congr {output : OutputSettings} {first second : ObjectMap}
    {graph : DependencyGraph} {files : List ScannedFile}
    (agree : ∀ path ∈ lookups graph files, first.get? path = second.get? path) :
    buildListing output first graph files = buildListing output second graph files := by
  have own : ∀ file ∈ files.filter (!·.source.excluded),
      ∀ path ∈ file.source.path :: (graph.prerequisites file.source.path ++
        graph.transitivePrerequisites file.source.path),
        objectOf first path = objectOf second path := by
    intro file member path found
    unfold objectOf
    rw [agree path (List.mem_flatMap.mpr ⟨file, member, found⟩)]
  have targets (listing : Listing) : ∀ file ∈ files.filter (!·.source.excluded),
      listing.addTarget (objectOf first file.source.path)
          ((graph.prerequisites file.source.path).map (objectOf first)) =
        listing.addTarget (objectOf second file.source.path)
          ((graph.prerequisites file.source.path).map (objectOf second)) := by
    intro file member
    rw [own file member _ List.mem_cons_self]
    congr 1
    apply List.map_congr_left
    intro path direct
    exact own file member path (List.mem_cons_of_mem _ (List.mem_append_left _ direct))
  have linked : ∀ file ∈ files.filter (!·.source.excluded),
      linkedObjects first graph file.source.path = linkedObjects second graph file.source.path := by
    intro file member
    unfold linkedObjects
    rw [own file member _ List.mem_cons_self]
    congr 2
    apply List.map_congr_left
    intro path indirect
    exact own file member path (List.mem_cons_of_mem _ (List.mem_append_right _ indirect))
  unfold buildListing
  simp only
  rw [List.foldl_ext _ _ _ targets]
  split
  · apply List.foldl_ext
    intro listing file member
    rw [linked file (List.mem_filter.mp member).1]
  · rfl

theorem edges_add_targets (target : ScannedFile → String)
    (prerequisites : ScannedFile → List String) (files : List ScannedFile) (listing : Listing) :
    (files.foldl (fun listing file => listing.addTarget (target file) (prerequisites file))
        listing).edges =
      listing.edges ++ files.flatMap fun file =>
        (sorted (prerequisites file)).eraseReps.map (Rule.mk (target file)) := by
  induction files generalizing listing with
  | nil => simp
  | cons file rest induction =>
      rw [List.foldl_cons, induction, List.flatMap_cons, ← List.append_assoc]
      rfl

theorem edges_add_link_rules (program : ScannedFile → String) (objects : ScannedFile → List String)
    (files : List ScannedFile) (listing : Listing) :
    (files.foldl (fun listing file => listing.addLinkRule (program file) (objects file))
        listing).edges = listing.edges := by
  induction files generalizing listing with
  | nil => rfl
  | cons file rest induction =>
      rw [List.foldl_cons, induction]
      rfl

theorem Scanned.declared_file {tree : FileTree} {settings : Settings} {lines : Reading}
    {sources : List SourceFile} {files : List ScannedFile}
    (stages : Scanned tree settings lines sources files) {file : ScannedFile}
    (member : file ∈ files) : file.declaration.file = file.source.path :=
  (scan_file_eq_ok (stages.scanned_files.2 file member)).2

namespace Resolved

variable {tree : FileTree} {settings : Settings} {lines : Reading} {analysis : Analysis}

theorem object_of_eq (stages : Resolved tree settings lines analysis) {file : ScannedFile}
    (member : file ∈ analysis.files) {path : Path}
    (same : file.source.path.components = path.components) :
    objectOf analysis.objects path = objectOfFile settings file := by
  rw [objectOf, stages.get?_file member same, Option.getD_some]

/-- A file of the project needs another one exactly if it uses what that one declares. -/
theorem mem_needed_iff (stages : Resolved tree settings lines analysis) {file : ScannedFile}
    (member : file ∈ analysis.files) (checked : file.source.excluded = false)
    {components : List Component} :
    components ∈ (analysis.graph.prerequisites file.source.path).map Path.components ↔
      ∃ used ∈ analysis.files, file ≠ used ∧ used.source.path.components = components ∧
        UsesUnit settings file used := by
  rw [stages.prerequisites_file member, mem_resolve (stages.graph_eq.2 file member checked)]
  constructor
  · rintro ⟨edge, inside, path, needs, same⟩
    obtain ⟨intrinsic, skipped, found, differ⟩ := resolve_use_eq_needs.mp needs
    obtain ⟨used, inUsed, name, declared⟩ := (lookup_gather_index stages.indexed).mp found
    rw [stages.declared_file inUsed] at declared
    subst declared
    refine ⟨used, inUsed, ?_, same, edge, inside, ?_, name.symm⟩
    · rintro rfl
      exact differ rfl
    · exact (must_resolve_iff settings edge).mpr ⟨intrinsic, skipped⟩
  · rintro ⟨used, inUsed, apart, same, edge, inside, counts, name⟩
    obtain ⟨intrinsic, skipped⟩ := (must_resolve_iff settings edge).mp counts
    refine ⟨edge, inside, used.source.path, ?_, same⟩
    refine resolve_use_eq_needs.mpr ⟨intrinsic, skipped, ?_, ?_⟩
    · exact (lookup_gather_index stages.indexed).mpr
        ⟨used, inUsed, name.symm, stages.declared_file inUsed⟩
    · intro equal
      exact apart (stages.eq_of_components member inUsed equal.symm)

theorem mem_listed_objects_iff (stages : Resolved tree settings lines analysis) {file : ScannedFile}
    (member : file ∈ analysis.files) (checked : file.source.excluded = false) {object : String} :
    object ∈ listedObjects analysis file ↔
      ∃ used ∈ analysis.files, file ≠ used ∧ object = objectOfFile settings used ∧
        UsesUnit settings file used := by
  unfold listedObjects
  rw [(erase_reps_ascending (sorted_ascending _)).2, mem_sorted, List.mem_map]
  constructor
  · rintro ⟨path, inside, rfl⟩
    obtain ⟨used, inUsed, apart, same, uses⟩ :=
      (stages.mem_needed_iff member checked).mp (List.mem_map_of_mem inside)
    exact ⟨used, inUsed, apart, stages.object_of_eq inUsed same, uses⟩
  · rintro ⟨used, inUsed, apart, rfl, uses⟩
    obtain ⟨path, inside, same⟩ := List.mem_map.mp
      ((stages.mem_needed_iff member checked).mpr ⟨used, inUsed, apart, rfl, uses⟩)
    exact ⟨path, inside, stages.object_of_eq inUsed same.symm⟩

/-- Every file of the graph is a scanned one. -/
theorem exists_scanned (stages : Resolved tree settings lines analysis) {path : Path}
    (member : path ∈ analysis.graph.files.toList) :
    ∃ file ∈ analysis.files, file.source.path.components = path.components := by
  rw [stages.graph_eq.1] at member
  obtain ⟨call, inCalls, mentioned⟩ := DependencyGraph.mem_files_of_calls member
  obtain ⟨file, inFiles, rfl⟩ := List.mem_map.mp inCalls
  rcases List.mem_cons.mp mentioned with rfl | inNeeded
  · exact ⟨file, inFiles, rfl⟩
  · by_cases excluded : file.source.excluded = true
    · simp [needed, excluded] at inNeeded
    · have checked : file.source.excluded = false := by simpa using excluded
      have components := List.mem_map_of_mem (f := Path.components) inNeeded
      rw [← stages.prerequisites_file inFiles] at components
      obtain ⟨used, inUsed, -, same, -⟩ := (stages.mem_needed_iff inFiles checked).mp components
      exact ⟨used, inUsed, same⟩

theorem get?_lookups (stages : Resolved tree settings lines analysis) {path : Path}
    (member : path ∈ lookups analysis.graph analysis.files) :
    (analysis.objects.get? path).isSome = true := by
  obtain ⟨file, inFiles, found⟩ := List.mem_flatMap.mp member
  have scanned : ∃ file ∈ analysis.files, file.source.path.components = path.components := by
    rcases List.mem_cons.mp found with rfl | inGraph
    · exact ⟨file, (List.mem_filter.mp inFiles).1, rfl⟩
    · apply stages.exists_scanned
      rcases List.mem_append.mp inGraph with direct | indirect
      · exact DependencyGraph.mem_files_of_needs direct
      · exact DependencyGraph.mem_files_of_transitive indirect
  obtain ⟨used, inUsed, same⟩ := scanned
  rw [stages.get?_file inUsed same]
  rfl

end Resolved

namespace Stages

variable {tree : FileTree} {settings : Settings} {lines : Reading} {analysis : Analysis}

theorem edges_eq (stages : Stages tree settings lines analysis) :
    analysis.listing.edges = (analysis.files.filter (!·.source.excluded)).flatMap fun file =>
      (listedObjects analysis file).map (Rule.mk (objectOfFile settings file)) := by
  have built : analysis.listing.edges =
      (analysis.files.filter (!·.source.excluded)).flatMap fun file =>
        (listedObjects analysis file).map
          (Rule.mk (objectOf analysis.objects file.source.path)) := by
    rw [stages.listed]
    unfold buildListing
    simp only
    split
    · rw [edges_add_link_rules, edges_add_targets]
      rfl
    · rw [edges_add_targets]
      rfl
  rw [built]
  apply List.flatMap_congr
  intro file member
  rw [stages.object_of_eq (List.mem_filter.mp member).1 rfl]

theorem edges_nodup (stages : Stages tree settings lines analysis) :
    analysis.listing.edges.Nodup := by
  rw [stages.edges_eq, List.nodup_flatMap]
  constructor
  · intro file _
    apply List.Nodup.map
    · intro first second same
      exact congrArg Rule.prerequisite same
    · exact (listed_objects_strict analysis file).imp String.ne_of_lt
  · -- Rules of different files have different targets.
    have targets : (analysis.files.filter (!·.source.excluded)).Pairwise fun first second =>
        objectOfFile settings first ≠ objectOfFile settings second :=
      (List.pairwise_map.mp stages.objects_nodup).sublist List.filter_sublist
    refine targets.imp fun {first second} differ rule inFirst inSecond => ?_
    obtain ⟨_, -, rfl⟩ := List.mem_map.mp inFirst
    obtain ⟨_, -, same⟩ := List.mem_map.mp inSecond
    exact differ (Rule.mk.inj same).1.symm

end Stages

/-- The edges of a listing are exactly the uses between different scanned files. They are
grouped by their targets in the order of the files, the prerequisites of each group are
strictly ascending, and no edge is repeated. Every object that is looked up is there, and
the listing depends on no other. -/
theorem listing_edges_exact {tree : FileTree} {settings : Settings} {analysis : Analysis}
    (success : analyze tree settings = .ok analysis) :
    (∀ target prerequisite, Rule.mk target prerequisite ∈ analysis.listing.edges ↔
      ∃ file ∈ analysis.files, ∃ used ∈ analysis.files, file ≠ used ∧
        file.source.excluded = false ∧ target = objectOfFile settings file ∧
          prerequisite = objectOfFile settings used ∧ UsesUnit settings file used) ∧
    (∃ group : ScannedFile → List String,
      analysis.listing.edges = (analysis.files.filter (!·.source.excluded)).flatMap (fun file =>
        (group file).map (Rule.mk (objectOfFile settings file))) ∧
      ∀ file ∈ analysis.files, (group file).Pairwise (· < ·)) ∧
    (analysis.files.map (objectOfFile settings)).Nodup ∧
    analysis.listing.edges.Nodup ∧
    (∀ path ∈ lookups analysis.graph analysis.files,
      (analysis.objects.get? path).isSome = true) ∧
    ∀ objects : ObjectMap,
      (∀ path ∈ lookups analysis.graph analysis.files,
        objects.get? path = analysis.objects.get? path) →
      buildListing settings.output objects analysis.graph analysis.files = analysis.listing := by
  obtain ⟨lines, stages⟩ := analyze_eq_ok.mp success
  refine ⟨?_, ⟨listedObjects analysis, stages.edges_eq, ?_⟩,
    stages.objects_nodup, stages.edges_nodup, fun path => stages.get?_lookups, ?_⟩
  · intro target prerequisite
    rw [stages.edges_eq, List.mem_flatMap]
    constructor
    · rintro ⟨file, inFiles, found⟩
      obtain ⟨member, kept⟩ := List.mem_filter.mp inFiles
      have checked : file.source.excluded = false := by simpa using kept
      obtain ⟨object, listed, same⟩ := List.mem_map.mp found
      cases same
      obtain ⟨used, inUsed, apart, object, uses⟩ :=
        (stages.mem_listed_objects_iff member checked).mp listed
      exact ⟨file, member, used, inUsed, apart, checked, rfl, object, uses⟩
    · rintro ⟨file, member, used, inUsed, apart, checked, rfl, rfl, uses⟩
      refine ⟨file, List.mem_filter.mpr ⟨member, by simp [checked]⟩, List.mem_map_of_mem ?_⟩
      exact (stages.mem_listed_objects_iff member checked).mpr ⟨used, inUsed, apart, rfl, uses⟩
  · intro file _
    exact (erase_reps_ascending (sorted_ascending _)).1
  · intro objects agree
    rw [build_listing_congr agree, stages.listed]

/-- A module, and a module that uses it and is listed before it. -/
def pairTree : FileTree :=
  { FileTree.empty [] with nodes :=
    [(["a.f90"], .file "module a\n".toUTF8), (["b.f90"], .file "module b\n use a\n".toUTF8)] }

def pairSettings : Settings where
  discovery := { files := [⟨"b.f90"⟩, ⟨"a.f90"⟩] }
  preprocess := { enabled := false }
  resolve := { skipModules := [] }

def pairFiles : List ScannedFile :=
  [⟨⟨⟨"b.f90"⟩, false, false⟩, ⟨⟨"b.f90"⟩, .moduleUnit, "b"⟩, [⟨⟨"b.f90"⟩, "a", false, 2⟩]⟩,
    ⟨⟨⟨"a.f90"⟩, false, false⟩, ⟨⟨"a.f90"⟩, .moduleUnit, "a"⟩, []⟩]

def pairObjects : ObjectMap := ⟨[(⟨"b.f90"⟩, "b.o"), (⟨"a.f90"⟩, "a.o")]⟩

def pairGraph : DependencyGraph :=
  .ofCalls [(⟨"b.f90"⟩, [⟨"a.f90"⟩]), (⟨"a.f90"⟩, [])]

def pairAnalysis : Analysis where
  sources := pairFiles.map (·.source)
  files := pairFiles
  index := (gatherIndex pairFiles).1
  objects := pairObjects
  graph := pairGraph
  listing := buildListing pairSettings.output pairObjects pairGraph pairFiles

theorem pair_graph_acyclic : pairGraph.checkAcyclic = .ok () := by
  have dependent : Path.components ⟨"b.f90"⟩ = [.normal "b.f90"] := by decide +kernel
  have needed : Path.components ⟨"a.f90"⟩ = [.normal "a.f90"] := by decide +kernel
  have shape : ∃ positions, pairGraph =
      ⟨#[⟨"b.f90"⟩, ⟨"a.f90"⟩], positions, #[[1], []]⟩ := by
    simp [pairGraph, DependencyGraph.ofCalls, DependencyGraph.addFiles, DependencyGraph.addFile,
      DependencyGraph.mention, DependencyGraph.contains, DependencyGraph.position?,
      DependencyGraph.empty, dependent, needed, Std.HashMap.getElem?_insert,
      Std.HashMap.getElem_insert]
  obtain ⟨positions, same⟩ := shape
  rw [same]
  cbv

theorem pair_stages : Stages pairTree pairSettings .verbatim pairAnalysis where
  discovered := rfl
  read := rfl
  scanned := by cbv
  indexed := by decide +kernel
  assigned := rfl
  resolved := rfl
  acyclic := pair_graph_acyclic
  listed := rfl

theorem pair_edge_listed :
    analyze pairTree pairSettings = .ok pairAnalysis ∧
      Rule.mk "b.o" "a.o" ∈ pairAnalysis.listing.edges := by
  have success : analyze pairTree pairSettings = .ok pairAnalysis :=
    analyze_eq_ok.mpr ⟨.verbatim, pair_stages⟩
  have uses : UsesUnit pairSettings pairFiles[0] pairFiles[1] :=
    ⟨⟨⟨"b.f90"⟩, "a", false, 2⟩, by simp [pairFiles],
      (must_resolve_iff pairSettings _).mpr ⟨rfl, by decide +kernel⟩, rfl⟩
  refine ⟨success, ((listing_edges_exact success).1 "b.o" "a.o").mpr ?_⟩
  exact ⟨pairFiles[0], by simp [pairAnalysis], pairFiles[1], by simp [pairAnalysis],
    by decide +kernel, rfl, by cbv, by cbv, uses⟩

end FortranDeps.Project

import FortranDeps.Proofs.Build.Closure
import FortranDeps.Proofs.Project.DiscoveryOrder

/-!
Prerequisites between the scanned files of a project. The graph of a project relates the
paths of two files exactly if the first one is checked and uses the unit that the second one
declares, and the same holds for ways of several steps. So a graph has a cycle exactly if the
files have one, and what is linked into a program are the files that can be reached from it.
-/

namespace FortranDeps.Project

open Build FortranDeps.Units Relation

/-- A file that is checked uses the unit that another file declares. -/
structure Prerequisite (settings : Settings) (files : List ScannedFile)
    (file used : ScannedFile) : Prop where
  user : file ∈ files
  declaring : used ∈ files
  apart : file ≠ used
  checked : file.source.excluded = false
  uses : UsesUnit settings file used

theorem Prerequisite.mem_of_path {settings : Settings} {files : List ScannedFile}
    {file used : ScannedFile} (path : TransGen (Prerequisite settings files) file used) :
    file ∈ files ∧ used ∈ files := by
  obtain ⟨next, first, -⟩ := TransGen.head'_iff.mp path
  obtain ⟨last, -, direct⟩ := TransGen.tail'_iff.mp path
  exact ⟨first.user, direct.declaring⟩

namespace Resolved

variable {tree : FileTree} {settings : Settings} {lines : Reading} {analysis : Analysis}
  {file used : ScannedFile} {path : Path}

theorem needs_iff (stages : Resolved tree settings lines analysis)
    (member : file ∈ analysis.files) :
    analysis.graph.Needs file.source.path path ↔
      ∃ used, used.source.path = path ∧ Prerequisite settings analysis.files file used := by
  constructor
  · intro needs
    have listed := List.mem_map_of_mem (f := Path.components) needs
    have checked : file.source.excluded = false := by
      by_contra excluded
      rw [stages.prerequisites_file member] at listed
      simp [needed, excluded] at listed
    obtain ⟨used, inUsed, apart, same, uses⟩ := (stages.mem_needed_iff member checked).mp listed
    have inGraph := stages.discovered_of_mem_files (DependencyGraph.mem_files_of_needs needs)
    have written := stages.discovered_eq (List.mem_map_of_mem inUsed) inGraph same
    exact ⟨used, written, member, inUsed, apart, checked, uses⟩
  · rintro ⟨used, rfl, prerequisite⟩
    have listed := (stages.mem_needed_iff member prerequisite.checked).mpr
      ⟨used, prerequisite.declaring, prerequisite.apart, rfl, prerequisite.uses⟩
    obtain ⟨path, direct, same⟩ := List.mem_map.mp listed
    have inGraph := stages.discovered_of_mem_files (DependencyGraph.mem_files_of_needs direct)
    have inUsed := List.mem_map_of_mem (f := (·.source.path)) prerequisite.declaring
    rwa [stages.discovered_eq inGraph inUsed same] at direct

theorem path_iff (stages : Resolved tree settings lines analysis) (member : file ∈ analysis.files) :
    TransGen analysis.graph.Needs file.source.path path ↔
      ∃ used, used.source.path = path ∧
        TransGen (Prerequisite settings analysis.files) file used := by
  constructor
  · intro way
    induction way with
    | single needs =>
        obtain ⟨used, same, direct⟩ := (stages.needs_iff member).mp needs
        exact ⟨used, same, .single direct⟩
    | tail _ needs earlier =>
        obtain ⟨middle, rfl, way⟩ := earlier
        have inMiddle := (Prerequisite.mem_of_path way).2
        obtain ⟨used, same, direct⟩ := (stages.needs_iff inMiddle).mp needs
        exact ⟨used, same, way.tail direct⟩
  · rintro ⟨used, rfl, way⟩
    apply way.lift (·.source.path)
    intro first second direct
    exact (stages.needs_iff direct.user).mpr ⟨second, rfl, direct⟩

/-- The graph has a cycle exactly if the files have one. -/
theorem acyclic_iff (stages : Resolved tree settings lines analysis) :
    analysis.graph.Acyclic ↔
      ∀ file, ¬TransGen (Prerequisite settings analysis.files) file file := by
  constructor
  · intro acyclic file cycle
    apply acyclic file.source.path
    exact (stages.path_iff (Prerequisite.mem_of_path cycle).1).mpr ⟨file, rfl, cycle⟩
  · intro acyclic path cycle
    obtain ⟨user, -, needs⟩ := TransGen.tail'_iff.mp cycle
    have inGraph := stages.discovered_of_mem_files (DependencyGraph.mem_files_of_needs needs)
    obtain ⟨file, member, rfl⟩ := List.mem_map.mp inGraph
    obtain ⟨used, same, way⟩ := (stages.path_iff member).mp cycle
    have equal := stages.eq_of_components (Prerequisite.mem_of_path way).2 member
      (congrArg Path.components same)
    rw [equal] at way
    exact acyclic file way

theorem mem_transitive_iff (stages : Resolved tree settings lines analysis)
    (member : file ∈ analysis.files) :
    path ∈ analysis.graph.transitivePrerequisites file.source.path ↔
      ∃ used, used.source.path = path ∧ used ≠ file ∧
        TransGen (Prerequisite settings analysis.files) file used := by
  have inGraph := stages.mem_files_of_discovered (List.mem_map_of_mem member)
  rw [stages.formed.mem_transitive_iff inGraph, stages.path_iff member]
  constructor
  · rintro ⟨apart, used, rfl, way⟩
    refine ⟨used, rfl, ?_, way⟩
    rintro rfl
    exact apart rfl
  · rintro ⟨used, rfl, apart, way⟩
    refine ⟨?_, used, rfl, way⟩
    intro same
    have inUsed := (Prerequisite.mem_of_path way).2
    exact apart (stages.eq_of_components inUsed member (congrArg Path.components same))

end Resolved

/-- The edges of the listing are the prerequisites, with their objects. -/
theorem Stages.mem_edges_iff {tree : FileTree} {settings : Settings} {lines : Reading}
    {analysis : Analysis} (stages : Stages tree settings lines analysis)
    {target prerequisite : String} :
    Rule.mk target prerequisite ∈ analysis.listing.edges ↔
      ∃ file used, Prerequisite settings analysis.files file used ∧
        target = objectOfFile settings file ∧ prerequisite = objectOfFile settings used := by
  rw [stages.edges_eq, List.mem_flatMap]
  constructor
  · rintro ⟨file, inChecked, inRules⟩
    obtain ⟨object, inObjects, same⟩ := List.mem_map.mp inRules
    obtain ⟨inFiles, kept⟩ := List.mem_filter.mp inChecked
    have checked : file.source.excluded = false := by simpa using kept
    obtain ⟨used, inUsed, apart, object, uses⟩ :=
      (stages.mem_listed_objects_iff inFiles checked).mp inObjects
    obtain ⟨rfl, rfl⟩ := Rule.mk.inj same
    exact ⟨file, used, ⟨inFiles, inUsed, apart, checked, uses⟩, rfl, object⟩
  · rintro ⟨file, used, direct, rfl, rfl⟩
    refine ⟨file, List.mem_filter.mpr ⟨direct.user, by simp [direct.checked]⟩,
      List.mem_map_of_mem ?_⟩
    exact (stages.mem_listed_objects_iff direct.user direct.checked).mpr
      ⟨used, direct.declaring, direct.apart, rfl, direct.uses⟩

end FortranDeps.Project

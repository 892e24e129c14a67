import FortranDeps.Proofs.Build.FirstMention
import FortranDeps.Proofs.Build.Ties
import FortranDeps.Proofs.Project.Edges

/-!
Ties in the compile order of a project. Files stand in the graph in the order of their first
mention. A file that is needed by one that was discovered earlier is mentioned before its own
turn, and can then be taken before files that were discovered earlier and are ready as well.
-/

namespace FortranDeps.Project

open Build FortranDeps.Units

/-- The paths of the scanned files, in the order of their discovery. -/
def Analysis.discoveryOrder (analysis : Analysis) : List Path :=
  analysis.files.map (·.source.path)

/-- A file is taken although another one is ready and was discovered before it, where a file
discovered before both needs it. -/
structure Overtakes (analysis : Analysis) (order : List Path) (file earlier : Path) : Prop where
  ready : ∃ before after, order = before ++ file :: after ∧ earlier ∈ after ∧
    ∀ need ∈ analysis.graph.prerequisites earlier, need ∈ before
  later : analysis.discoveryOrder.idxOf earlier < analysis.discoveryOrder.idxOf file
  mentioned : ∃ user ∈ analysis.discoveryOrder,
    analysis.discoveryOrder.idxOf user < analysis.discoveryOrder.idxOf earlier ∧
      file ∈ analysis.graph.prerequisites user

/-- The call that adds a scanned file to the graph. -/
def callOf (settings : Settings) (analysis : Analysis) (file : ScannedFile) : Path × List Path :=
  (file.source.path, needed analysis.index (skipSet settings) file)

namespace Resolved

variable {tree : FileTree} {settings : Settings} {lines : Reading} {analysis : Analysis}

theorem discovered_nodup (stages : Resolved tree settings lines analysis) :
    analysis.discoveryOrder.Nodup := by
  have objects := stages.objects_nodup
  have split : analysis.files.map (objectOfFile settings) =
      analysis.discoveryOrder.map (naming settings).object := by
    unfold Analysis.discoveryOrder
    rw [List.map_map]
    apply List.map_congr_left
    intro file member
    rw [Function.comp_apply, objectOfFile]
  rw [split] at objects
  exact objects.of_map

/-- What a file is added with is written like the path of a scanned file. -/
theorem needed_discovered (stages : Resolved tree settings lines analysis) {file : ScannedFile}
    (member : file ∈ analysis.files) {path : Path}
    (needs : path ∈ needed analysis.index (skipSet settings) file) :
    path ∈ analysis.discoveryOrder := by
  by_cases excluded : file.source.excluded = true
  · simp [needed, excluded] at needs
  · have checked : file.source.excluded = false := by simpa using excluded
    obtain ⟨edge, -, found⟩ := resolve_use_of_mem (stages.graph_eq.2 file member checked) needs
    obtain ⟨-, -, known, -⟩ := resolve_use_eq_needs.mp found
    obtain ⟨used, inUsed, -, declared⟩ := (lookup_gather_index stages.indexed).mp known
    rw [stages.declared_file inUsed] at declared
    exact List.mem_map.mpr ⟨used, inUsed, declared⟩

theorem discovered_of_mem_files (stages : Resolved tree settings lines analysis) {path : Path}
    (member : path ∈ analysis.graph.files.toList) : path ∈ analysis.discoveryOrder := by
  rw [stages.graph_eq.1] at member
  obtain ⟨call, inCalls, mentioned⟩ := DependencyGraph.mem_files_of_calls member
  obtain ⟨file, inFiles, rfl⟩ := List.mem_map.mp inCalls
  rcases List.mem_cons.mp mentioned with rfl | needs
  · exact List.mem_map_of_mem inFiles
  · exact stages.needed_discovered inFiles needs

/-- Paths of scanned files with equal components are written alike. -/
theorem discovered_eq (stages : Resolved tree settings lines analysis) {first second : Path}
    (inFirst : first ∈ analysis.discoveryOrder) (inSecond : second ∈ analysis.discoveryOrder)
    (same : first.components = second.components) : first = second := by
  obtain ⟨file, member, rfl⟩ := List.mem_map.mp inFirst
  obtain ⟨other, inOther, rfl⟩ := List.mem_map.mp inSecond
  rw [stages.eq_of_components member inOther same]

theorem graph_split (stages : Resolved tree settings lines analysis)
    {before after : List ScannedFile} {file : ScannedFile}
    (split : analysis.files = before ++ file :: after) :
    analysis.graph = .ofCalls (before.map (callOf settings analysis) ++
      callOf settings analysis file :: after.map (callOf settings analysis)) := by
  rw [stages.graph_eq.1, split, List.map_append, List.map_cons]
  rfl

theorem mem_files_of_discovered (stages : Resolved tree settings lines analysis) {path : Path}
    (member : path ∈ analysis.discoveryOrder) : path ∈ analysis.graph.files.toList := by
  obtain ⟨file, inFiles, rfl⟩ := List.mem_map.mp member
  have mentioned : file.source.path ∈
      DependencyGraph.mentions (analysis.files.map (callOf settings analysis)) :=
    DependencyGraph.mem_mentions.mpr
      ⟨callOf settings analysis file, List.mem_map_of_mem inFiles, List.mem_cons_self⟩
  have graph : analysis.graph = .ofCalls (analysis.files.map (callOf settings analysis)) :=
    stages.graph_eq.1
  obtain ⟨path, inGraph, same⟩ := DependencyGraph.exists_file_of_mentioned mentioned
  rw [← graph] at inGraph
  rwa [stages.discovered_eq (stages.discovered_of_mem_files inGraph) member same] at inGraph

theorem formed (stages : Resolved tree settings lines analysis) : analysis.graph.WellFormed := by
  rw [stages.graph_eq.1]
  exact DependencyGraph.well_formed_of_calls _

theorem files_perm_discovered (stages : Resolved tree settings lines analysis) :
    analysis.graph.files.toList.Perm analysis.discoveryOrder := by
  apply (List.perm_ext_iff_of_nodup stages.formed.files_nodup stages.discovered_nodup).mpr
  intro path
  exact ⟨stages.discovered_of_mem_files, stages.mem_files_of_discovered⟩

/-- A file that is mentioned before another one, but discovered after it, is needed by a file
that was discovered before both. -/
theorem needed_of_mentioned (stages : Resolved tree settings lines analysis) {file earlier : Path}
    (inFile : file ∈ analysis.discoveryOrder) (inEarlier : earlier ∈ analysis.discoveryOrder)
    (mentioned : analysis.graph.files.toList.idxOf file <
      analysis.graph.files.toList.idxOf earlier)
    (later : analysis.discoveryOrder.idxOf earlier < analysis.discoveryOrder.idxOf file) :
    ∃ user ∈ analysis.discoveryOrder,
      analysis.discoveryOrder.idxOf user < analysis.discoveryOrder.idxOf earlier ∧
        file ∈ analysis.graph.prerequisites user := by
  obtain ⟨own, inFiles, rfl⟩ := List.mem_map.mp inEarlier
  obtain ⟨before, after, split⟩ := List.append_of_mem inFiles
  have order : analysis.discoveryOrder =
      before.map (·.source.path) ++ own.source.path :: after.map (·.source.path) := by
    rw [Analysis.discoveryOrder, split, List.map_append, List.map_cons]
  have nodup := stages.discovered_nodup
  rw [order] at nodup
  have fresh : own.source.path ∉ before.map (·.source.path) := by
    intro member
    exact (List.nodup_append'.mp nodup).2.2 member List.mem_cons_self
  have ahead {path : Path} (member : path ∈ before.map (·.source.path)) :
      analysis.discoveryOrder.idxOf path < analysis.discoveryOrder.idxOf own.source.path := by
    rw [order, List.idxOf_append_of_mem member, List.idxOf_append_of_notMem fresh]
    apply Nat.lt_add_right
    exact List.idxOf_lt_length_of_mem member
  have written : ∀ path ∈ analysis.graph.files.toList,
      path.components = own.source.path.components → path = own.source.path := by
    intro path member
    exact stages.discovered_eq (stages.discovered_of_mem_files member) inEarlier
  rw [stages.graph_split split] at written mentioned
  obtain ⟨call, inCalls, found⟩ := DependencyGraph.mentioned_earlier written mentioned
  obtain ⟨user, inBefore, rfl⟩ := List.mem_map.mp inCalls
  have inUsers : user ∈ analysis.files := by simp [split, inBefore]
  have userPath := List.mem_map_of_mem (f := (·.source.path)) inBefore
  refine ⟨user.source.path, List.mem_map_of_mem inUsers, ahead userPath, ?_⟩
  rcases List.mem_cons.mp found with rfl | needs
  · exact absurd later (Nat.lt_asymm (ahead userPath))
  · have listed : file.components ∈
        (needed analysis.index (skipSet settings) user).map Path.components :=
      List.mem_map_of_mem needs
    rw [← stages.prerequisites_file inUsers] at listed
    obtain ⟨path, direct, same⟩ := List.mem_map.mp listed
    have inGraph := DependencyGraph.mem_files_of_needs direct
    rwa [stages.discovered_eq (stages.discovered_of_mem_files inGraph) inFile same] at direct

theorem in_turn_iff (stages : Resolved tree settings lines analysis) {order : List Path}
    (perm : order.Perm analysis.discoveryOrder) (nodup : order.Nodup)
    (turn : InTurn analysis.graph.prerequisites analysis.graph.files.toList [] order) :
    InTurn analysis.graph.prerequisites analysis.discoveryOrder [] order ↔
      ∀ file earlier, ¬Overtakes analysis order file earlier := by
  constructor
  · intro mine file earlier overtakes
    obtain ⟨before, after, split, inAfter, met⟩ := overtakes.ready
    have less := mine before file after split earlier inAfter met
    have later := overtakes.later
    omega
  · intro none before file after split earlier inAfter met
    have inFile : file ∈ analysis.discoveryOrder := perm.mem_iff.mp (by simp [split])
    have inEarlier : earlier ∈ analysis.discoveryOrder := perm.mem_iff.mp (by simp [split, inAfter])
    by_contra behind
    have differ : analysis.discoveryOrder.idxOf earlier ≠ analysis.discoveryOrder.idxOf file := by
      intro same
      obtain rfl := (List.idxOf_inj inEarlier).mp same
      rw [split] at nodup
      exact (List.nodup_cons.mp (List.nodup_append'.mp nodup).2.1).1 inAfter
    have later : analysis.discoveryOrder.idxOf earlier < analysis.discoveryOrder.idxOf file := by
      omega
    have mentioned := turn before file after split earlier inAfter met
    apply none file earlier
    exact ⟨⟨before, after, split, inAfter, met⟩, later,
      stages.needed_of_mentioned inFile inEarlier mentioned later⟩

end Resolved

/-- A successful analysis has no cycle. -/
theorem Stages.graph_acyclic {tree : FileTree} {settings : Settings} {lines : Reading}
    {analysis : Analysis} (stages : Stages tree settings lines analysis) :
    analysis.graph.Acyclic := by
  rcases stages.formed.check_acyclic_cases with ⟨acyclic, -⟩ | ⟨-, cycle, failed⟩
  · exact acyclic
  · have passed := stages.acyclic
    rw [failed] at passed
    cases passed

/-- The compile order of a project takes the first ready file in the order of first mention.
It is the order that takes the first ready file as they were discovered exactly if no file
overtakes another one. -/
theorem compile_order_ties_iff {tree : FileTree} {settings : Settings} {analysis : Analysis}
    (success : analyze tree settings = .ok analysis) :
    ∃ order, analysis.compileOrder = .ok order ∧
      order = firstReadyOrder analysis.graph.prerequisites analysis.graph.files.toList ∧
      analysis.graph.files.toList.Perm analysis.discoveryOrder ∧
      (order = firstReadyOrder analysis.graph.prerequisites analysis.discoveryOrder ↔
        ∀ file earlier, ¬Overtakes analysis order file earlier) := by
  obtain ⟨lines, stages⟩ := analyze_eq_ok.mp success
  have acyclic := stages.graph_acyclic
  have schedule := stages.formed.is_schedule_order acyclic
  have perm := schedule.perm.trans stages.files_perm_discovered
  have nodup := perm.nodup_iff.mpr stages.discovered_nodup
  have found := stages.formed.compile_order_eq_first_ready acyclic
  have computed := stages.formed.compile_order_of_acyclic acyclic
  refine ⟨_, computed, ?_, stages.files_perm_discovered, ?_⟩
  · exact Except.ok.inj (computed.symm.trans found)
  · rw [eq_comm, first_ready_order_eq_iff schedule.ordered nodup perm,
      stages.in_turn_iff perm nodup stages.formed.in_turn_order]

/-- The first file needs the last one, and the file between them needs nothing. -/
def lateTree : FileTree :=
  { FileTree.empty [] with nodes :=
    [(["a.f90"], .file "module a\n use z\n".toUTF8), (["b.f90"], .file "module b\n".toUTF8),
      (["z.f90"], .file "module z\n".toUTF8)] }

def lateSettings : Settings where
  discovery := { files := [⟨"a.f90"⟩, ⟨"b.f90"⟩, ⟨"z.f90"⟩] }
  preprocess := { enabled := false }

def lateFiles : List ScannedFile :=
  [⟨⟨⟨"a.f90"⟩, false, false⟩, ⟨⟨"a.f90"⟩, .moduleUnit, "a"⟩, [⟨⟨"a.f90"⟩, "z", false, 2⟩]⟩,
    ⟨⟨⟨"b.f90"⟩, false, false⟩, ⟨⟨"b.f90"⟩, .moduleUnit, "b"⟩, []⟩,
    ⟨⟨⟨"z.f90"⟩, false, false⟩, ⟨⟨"z.f90"⟩, .moduleUnit, "z"⟩, []⟩]

def lateObjects : ObjectMap := ⟨[(⟨"a.f90"⟩, "a.o"), (⟨"b.f90"⟩, "b.o"), (⟨"z.f90"⟩, "z.o")]⟩

def lateGraph : DependencyGraph :=
  .ofCalls [(⟨"a.f90"⟩, [⟨"z.f90"⟩]), (⟨"b.f90"⟩, []), (⟨"z.f90"⟩, [])]

def lateAnalysis : Analysis where
  sources := lateFiles.map (·.source)
  files := lateFiles
  index := (gatherIndex lateFiles).1
  objects := lateObjects
  graph := lateGraph
  listing := buildListing lateSettings.output lateObjects lateGraph lateFiles

/-- The last file stands before the second one, because it was mentioned before. -/
theorem late_graph_shape :
    ∃ positions, lateGraph = ⟨#[⟨"a.f90"⟩, ⟨"z.f90"⟩, ⟨"b.f90"⟩], positions, #[[1], [], []]⟩ ∧
      positions[Path.components ⟨"a.f90"⟩]? = some 0 ∧
      positions[Path.components ⟨"z.f90"⟩]? = some 1 ∧
      positions[Path.components ⟨"b.f90"⟩]? = some 2 := by
  have first : Path.components ⟨"a.f90"⟩ = [.normal "a.f90"] := by decide +kernel
  have second : Path.components ⟨"b.f90"⟩ = [.normal "b.f90"] := by decide +kernel
  have third : Path.components ⟨"z.f90"⟩ = [.normal "z.f90"] := by decide +kernel
  simp [lateGraph, DependencyGraph.ofCalls, DependencyGraph.addFiles, DependencyGraph.addFile,
    DependencyGraph.mention, DependencyGraph.contains, DependencyGraph.position?,
    DependencyGraph.empty, first, second, third, Std.HashMap.getElem?_insert,
    Std.HashMap.getElem_insert]

theorem late_graph_prerequisites :
    lateGraph.prerequisites ⟨"a.f90"⟩ = [⟨"z.f90"⟩] ∧
      lateGraph.prerequisites ⟨"b.f90"⟩ = [] ∧ lateGraph.prerequisites ⟨"z.f90"⟩ = [] := by
  obtain ⟨positions, same, first, third, second⟩ := late_graph_shape
  rw [same]
  simp [DependencyGraph.prerequisites, DependencyGraph.position?, first, second, third]

theorem late_stages : Stages lateTree lateSettings .verbatim lateAnalysis where
  discovered := rfl
  read := rfl
  scanned := by cbv
  indexed := by decide +kernel
  assigned := rfl
  resolved := rfl
  acyclic := by
    obtain ⟨positions, same, -⟩ := late_graph_shape
    change lateGraph.checkAcyclic = .ok ()
    rw [same]
    cbv
  listed := rfl

/-- The last file is taken before the second one, which is ready and was discovered earlier. -/
theorem late_file_overtakes :
    analyze lateTree lateSettings = .ok lateAnalysis ∧
      lateAnalysis.compileOrder = .ok [⟨"z.f90"⟩, ⟨"a.f90"⟩, ⟨"b.f90"⟩] ∧
      firstReadyOrder lateAnalysis.graph.prerequisites lateAnalysis.discoveryOrder =
        [⟨"b.f90"⟩, ⟨"z.f90"⟩, ⟨"a.f90"⟩] ∧
      ∃ file earlier,
        Overtakes lateAnalysis [⟨"z.f90"⟩, ⟨"a.f90"⟩, ⟨"b.f90"⟩] file earlier := by
  have success : analyze lateTree lateSettings = .ok lateAnalysis :=
    analyze_eq_ok.mpr ⟨.verbatim, late_stages⟩
  obtain ⟨order, computed, mentioned, -, ties⟩ := compile_order_ties_iff success
  obtain ⟨positions, same, -⟩ := late_graph_shape
  obtain ⟨first, second, third⟩ := late_graph_prerequisites
  have files : lateAnalysis.graph.files.toList = [⟨"a.f90"⟩, ⟨"z.f90"⟩, ⟨"b.f90"⟩] := by
    change lateGraph.files.toList = _
    rw [same]
  have needs : lateAnalysis.graph.prerequisites = lateGraph.prerequisites := rfl
  have taken : order = [⟨"z.f90"⟩, ⟨"a.f90"⟩, ⟨"b.f90"⟩] := by
    rw [mentioned, files, needs]
    simp [firstReadyOrder, takeFirst, isReady, first, second, third]
  have expected : firstReadyOrder lateAnalysis.graph.prerequisites lateAnalysis.discoveryOrder =
      [⟨"b.f90"⟩, ⟨"z.f90"⟩, ⟨"a.f90"⟩] := by
    rw [needs]
    simp [firstReadyOrder, takeFirst, isReady, first, second, third, Analysis.discoveryOrder,
      lateAnalysis, lateFiles]
  subst taken
  refine ⟨success, computed, expected, ?_⟩
  by_contra none
  have equal := ties.mpr fun file earlier overtakes => none ⟨file, earlier, overtakes⟩
  rw [expected] at equal
  simp at equal

end FortranDeps.Project

import FortranDeps.Proofs.Project.Prerequisites

/-!
What a project puts out beside the edges of its listing: the link rules of its programs, the
manifest of its objects and the entries of its compile order. They are computed from the
sources, the scanned files and the graph, which differ where an excluded file could not be
scanned; still every lookup succeeds, and the outputs fit each other.
-/

namespace FortranDeps.Project

open Build FortranDeps.Units Relation

/-- The programs that are checked, in the order of the files. -/
def checkedPrograms (files : List ScannedFile) : List ScannedFile :=
  (files.filter (!·.source.excluded)).filter (·.declaration.kind == .mainProgram)

theorem mem_checked_programs {files : List ScannedFile} {file : ScannedFile} :
    file ∈ checkedPrograms files ↔
      file ∈ files ∧ file.source.excluded = false ∧ file.declaration.kind = .mainProgram := by
  simp [checkedPrograms, and_comm]

/-- The program that is linked from a scanned file. -/
def programOfFile (settings : Settings) (file : ScannedFile) : String :=
  (naming settings).program file.source.path

/-- The stem of the file name that objects and programs are named for. -/
def stemOf (file : ScannedFile) : String := file.source.path.fileStem.getD ""

/-- What is put behind the stem to name an object. -/
def objectSuffix (settings : Settings) : String :=
  if (naming settings).extension = "" then "" else "." ++ (naming settings).extension

theorem object_of_file_eq (settings : Settings) (file : ScannedFile) :
    objectOfFile settings file =
      (naming settings).inDirectory (stemOf file ++ objectSuffix settings) := by
  unfold objectOfFile ObjectNaming.object objectSuffix stemOf
  simp only
  split
  · rw [String.append_empty]
  · rw [String.append_assoc]

theorem program_of_file_eq (settings : Settings) (file : ScannedFile) :
    programOfFile settings file = (naming settings).inDirectory (stemOf file) := rfl

theorem in_directory_injective (naming : ObjectNaming) : Function.Injective naming.inDirectory := by
  intro first second same
  unfold ObjectNaming.inDirectory at same
  split at same
  · exact same
  · exact String.append_right_inj _ |>.mp same

theorem object_eq_program_iff {settings : Settings} {file program : ScannedFile} :
    objectOfFile settings file = programOfFile settings program ↔
      stemOf program = stemOf file ++ objectSuffix settings := by
  rw [object_of_file_eq, program_of_file_eq, (in_directory_injective (naming settings)).eq_iff,
    eq_comm]

theorem link_rules_add_targets (target : ScannedFile → String)
    (prerequisites : ScannedFile → List String) (files : List ScannedFile) (listing : Listing) :
    (files.foldl (fun listing file => listing.addTarget (target file) (prerequisites file))
        listing).linkRules = listing.linkRules := by
  induction files generalizing listing with
  | nil => rfl
  | cons file rest induction =>
      rw [List.foldl_cons, induction]
      rfl

theorem link_rules_add_link_rules (program : ScannedFile → String)
    (objects : ScannedFile → List String) (files : List ScannedFile) (listing : Listing) :
    (files.foldl (fun listing file => listing.addLinkRule (program file) (objects file))
        listing).linkRules =
      listing.linkRules ++
        files.flatMap fun file => (objects file).map (Rule.mk (program file)) := by
  induction files generalizing listing with
  | nil => simp
  | cons file rest induction =>
      rw [List.foldl_cons, induction, List.flatMap_cons, ← List.append_assoc]
      rfl

/-- The objects that a scanned file is linked from. -/
def linkedFrom (analysis : Analysis) (file : ScannedFile) : List String :=
  linkedObjects analysis.objects analysis.graph file.source.path

namespace Resolved

variable {tree : FileTree} {settings : Settings} {lines : Reading} {analysis : Analysis}
  {file : ScannedFile}

/-- A program is linked from the objects of all files that can be reached from it. -/
theorem mem_linked_from_iff (stages : Resolved tree settings lines analysis)
    (member : file ∈ analysis.files) {object : String} :
    object ∈ linkedFrom analysis file ↔
      ∃ used ∈ analysis.files, object = objectOfFile settings used ∧
        ReflTransGen (Prerequisite settings analysis.files) file used := by
  unfold linkedFrom linkedObjects
  rw [mem_sorted, List.mem_append, List.mem_map, List.mem_singleton, stages.object_of_eq member rfl]
  constructor
  · rintro (⟨path, indirect, rfl⟩ | rfl)
    · obtain ⟨used, rfl, -, way⟩ := (stages.mem_transitive_iff member).mp indirect
      have inUsed := (Prerequisite.mem_of_path way).2
      exact ⟨used, inUsed, stages.object_of_eq inUsed rfl, way.to_reflTransGen⟩
    · exact ⟨file, member, rfl, .refl⟩
  · rintro ⟨used, inUsed, rfl, way⟩
    by_cases own : used = file
    · rw [own]
      exact .inr rfl
    · rcases reflTransGen_iff_eq_or_transGen.mp way with same | indirect
      · exact absurd same own
      · refine .inl ⟨used.source.path, ?_, stages.object_of_eq inUsed rfl⟩
        exact (stages.mem_transitive_iff member).mpr ⟨used, rfl, own, indirect⟩

theorem linked_from_strict (stages : Resolved tree settings lines analysis)
    (member : file ∈ analysis.files) : (linkedFrom analysis file).Pairwise (· < ·) := by
  have inGraph := stages.mem_files_of_discovered (List.mem_map_of_mem member)
  apply sorted_strict
  rw [List.nodup_append']
  refine ⟨?_, List.nodup_singleton _, ?_⟩
  · apply List.Nodup.map_on ?_ (stages.formed.transitive_nodup inGraph)
    intro first inFirst second inSecond same
    obtain ⟨used, rfl, -, way⟩ := (stages.mem_transitive_iff member).mp inFirst
    obtain ⟨other, rfl, -, otherWay⟩ := (stages.mem_transitive_iff member).mp inSecond
    have inUsed := (Prerequisite.mem_of_path way).2
    have inOther := (Prerequisite.mem_of_path otherWay).2
    rw [stages.object_of_eq inUsed rfl, stages.object_of_eq inOther rfl] at same
    rw [stages.eq_of_object inUsed inOther same]
  · -- The program itself is left out of what it needs, even on a cycle.
    rw [List.disjoint_singleton, List.mem_map, stages.object_of_eq member rfl]
    rintro ⟨path, indirect, same⟩
    obtain ⟨used, rfl, apart, way⟩ := (stages.mem_transitive_iff member).mp indirect
    have inUsed := (Prerequisite.mem_of_path way).2
    rw [stages.object_of_eq inUsed rfl] at same
    exact apart (stages.eq_of_object inUsed member same)

/-- No two files give a program of the same name. -/
theorem programs_nodup (stages : Resolved tree settings lines analysis) :
    ((checkedPrograms analysis.files).map (programOfFile settings)).Nodup := by
  have part : (checkedPrograms analysis.files).Sublist analysis.files :=
    List.filter_sublist.trans List.filter_sublist
  apply List.Nodup.map_on ?_ (stages.objects_nodup.of_map.sublist part)
  intro first inFirst second inSecond same
  rw [program_of_file_eq, program_of_file_eq] at same
  apply stages.eq_of_object (part.mem inFirst) (part.mem inSecond)
  rw [object_of_file_eq, object_of_file_eq, in_directory_injective _ same]

theorem manifest_eq (stages : Resolved tree settings lines analysis) :
    analysis.manifest = analysis.sources.map (objectOfSource settings) := by
  unfold Analysis.manifest
  rw [← List.filterMap_eq_map]
  apply List.filterMap_congr
  intro source member
  have listed : source.path ∈ analysis.sources.map (·.path) := List.mem_map_of_mem member
  rw [(naming settings).get?_assigned stages.assigned listed rfl]
  rfl

theorem manifest_nodup (stages : Resolved tree settings lines analysis) :
    analysis.manifest.Nodup := by
  rw [stages.manifest_eq]
  exact stages.sources_nodup

theorem object_mem_manifest (stages : Resolved tree settings lines analysis)
    (member : file ∈ analysis.files) : objectOfFile settings file ∈ analysis.manifest := by
  have source : file.source ∈ analysis.sources :=
    stages.scanned_files.1.mem (List.mem_map_of_mem member)
  rw [stages.manifest_eq, List.mem_map]
  exact ⟨file.source, source, rfl⟩

/-- A file is found by its path among the scanned files. -/
theorem find_file (stages : Resolved tree settings lines analysis)
    (member : file ∈ analysis.files) :
    analysis.files.find? (·.source.path.same file.source.path) = some file := by
  cases found : analysis.files.find? (·.source.path.same file.source.path) with
  | none => exact absurd (Path.same_iff.mpr rfl) (List.find?_eq_none.mp found file member)
  | some other =>
      have same := Path.same_iff.mp (by simpa using List.find?_some found)
      rw [stages.eq_of_components (List.mem_of_find?_eq_some found) member same]

theorem order_entry_file (stages : Resolved tree settings lines analysis)
    (member : file ∈ analysis.files) :
    analysis.orderEntry file.source.path =
      { file := file.source.path
        object := some (objectOfFile settings file)
        kind := some file.declaration.kind
        name := some file.declaration.name
        excluded := file.source.excluded
        prerequisites := analysis.graph.prerequisites file.source.path } := by
  unfold Analysis.orderEntry
  rw [stages.find_file member, stages.get?_file member rfl]
  rfl

end Resolved

theorem Stages.link_rules_eq {tree : FileTree} {settings : Settings} {lines : Reading}
    {analysis : Analysis} (stages : Stages tree settings lines analysis) :
    analysis.listing.linkRules =
      if settings.output.linkRules then (checkedPrograms analysis.files).flatMap fun file =>
        (linkedFrom analysis file).map (Rule.mk (programOfFile settings file))
      else [] := by
  rw [stages.listed]
  unfold buildListing
  simp only
  split
  · rw [link_rules_add_link_rules, link_rules_add_targets]
    rfl
  · rw [link_rules_add_targets]
    rfl

theorem Stages.mem_link_rules_iff {tree : FileTree} {settings : Settings} {lines : Reading}
    {analysis : Analysis} (stages : Stages tree settings lines analysis)
    {target prerequisite : String} :
    Rule.mk target prerequisite ∈ analysis.listing.linkRules ↔
      settings.output.linkRules = true ∧
        ∃ file ∈ checkedPrograms analysis.files, ∃ used ∈ analysis.files,
          target = programOfFile settings file ∧ prerequisite = objectOfFile settings used ∧
            ReflTransGen (Prerequisite settings analysis.files) file used := by
  rw [stages.link_rules_eq]
  cases settings.output.linkRules with
  | false => simp
  | true =>
      rw [if_pos rfl, List.mem_flatMap]
      constructor
      · rintro ⟨file, program, inRules⟩
        obtain ⟨object, inObjects, same⟩ := List.mem_map.mp inRules
        have member := (mem_checked_programs.mp program).1
        obtain ⟨used, inUsed, object, way⟩ := (stages.mem_linked_from_iff member).mp inObjects
        obtain ⟨rfl, rfl⟩ := Rule.mk.inj same
        exact ⟨rfl, file, program, used, inUsed, rfl, object, way⟩
      · rintro ⟨-, file, program, used, inUsed, rfl, rfl, way⟩
        have member := (mem_checked_programs.mp program).1
        refine ⟨file, program, List.mem_map_of_mem ?_⟩
        exact (stages.mem_linked_from_iff member).mpr ⟨used, inUsed, rfl, way⟩

/-- The entries of a compile order: every scanned file once, with all that is known about it,
and after all its prerequisites. -/
structure OrderListed (settings : Settings) (analysis : Analysis) (entries : List OrderEntry) :
    Prop where
  perm : (entries.map (·.file)).Perm (analysis.files.map (·.source.path))
  nodup : (entries.map (·.file)).Nodup
  known : ∀ entry ∈ entries, ∃ file ∈ analysis.files, entry.file = file.source.path ∧
    entry.object = some (objectOfFile settings file) ∧
    entry.kind = some file.declaration.kind ∧ entry.name = some file.declaration.name ∧
    entry.excluded = file.source.excluded ∧
    ∀ path, path ∈ entry.prerequisites ↔
      ∃ used, used.source.path = path ∧ Prerequisite settings analysis.files file used
  earlier : ∀ before (entry : OrderEntry) after, entries = before ++ entry :: after →
    ∀ need ∈ entry.prerequisites, need ∈ before.map (·.file)

theorem Stages.order_entries_listed {tree : FileTree} {settings : Settings} {lines : Reading}
    {analysis : Analysis} (stages : Stages tree settings lines analysis) :
    ∃ entries, analysis.orderEntries = .ok entries ∧ OrderListed settings analysis entries := by
  have acyclic := stages.graph_acyclic
  have schedule := stages.formed.is_schedule_order acyclic
  have computed := stages.formed.compile_order_of_acyclic acyclic
  generalize analysis.graph.toDigraph.order.map analysis.graph.fileAt = order at schedule computed
  have perm := schedule.perm.trans stages.files_perm_discovered
  have files (paths : List Path) : (paths.map analysis.orderEntry).map (·.file) = paths := by
    rw [List.map_map]
    exact List.map_id paths
  refine ⟨order.map analysis.orderEntry, ?_, ?_, ?_, ?_, ?_⟩
  · unfold Analysis.orderEntries Analysis.compileOrder
    rw [computed]
    rfl
  · rw [files]
    exact perm
  · rw [files]
    exact perm.nodup_iff.mpr stages.discovered_nodup
  · intro entry member
    obtain ⟨path, inOrder, rfl⟩ := List.mem_map.mp member
    obtain ⟨file, inFiles, rfl⟩ := List.mem_map.mp (perm.mem_iff.mp inOrder)
    rw [stages.order_entry_file inFiles]
    exact ⟨file, inFiles, rfl, rfl, rfl, rfl, rfl, fun path => stages.needs_iff inFiles⟩
  · intro before entry after split need needed
    obtain ⟨first, second, rfl, rfl, later⟩ := List.map_eq_append_iff.mp split
    obtain ⟨path, rest, rfl, rfl, rfl⟩ := List.map_eq_cons_iff.mp later
    rw [files]
    exact schedule.ordered first path rest rfl need needed

/-- The outputs of a project are complete. With link rules, each checked program is linked from
the objects of all files that can be reached from it, in strictly ascending order; the manifest
has one object for each source, in their order, and all objects that the rules mention; the
entries of the compile order list every scanned file. -/
theorem outputs_complete {tree : FileTree} {settings : Settings} {analysis : Analysis}
    (success : analyze tree settings = .ok analysis) :
    (settings.output.linkRules = false → analysis.listing.linkRules = []) ∧
    (settings.output.linkRules = true → ∃ objects : ScannedFile → List String,
      analysis.listing.linkRules = (checkedPrograms analysis.files).flatMap (fun file =>
        (objects file).map (Rule.mk (programOfFile settings file))) ∧
      ∀ file ∈ checkedPrograms analysis.files, (objects file).Pairwise (· < ·) ∧
        ∀ object, object ∈ objects file ↔ ∃ used ∈ analysis.files,
          object = objectOfFile settings used ∧
            ReflTransGen (Prerequisite settings analysis.files) file used) ∧
    analysis.manifest = analysis.sources.map (objectOfSource settings) ∧
    analysis.manifest.Nodup ∧
    (∀ rule ∈ analysis.listing.edges,
      rule.target ∈ analysis.manifest ∧ rule.prerequisite ∈ analysis.manifest) ∧
    (∀ rule ∈ analysis.listing.linkRules, rule.prerequisite ∈ analysis.manifest) ∧
    ∃ entries, analysis.orderEntries = .ok entries ∧ OrderListed settings analysis entries := by
  obtain ⟨lines, stages⟩ := analyze_eq_ok.mp success
  have rules := stages.link_rules_eq
  refine ⟨?_, ?_, stages.manifest_eq, stages.manifest_nodup, ?_, ?_, stages.order_entries_listed⟩
  · intro unset
    rw [rules, unset]
    rfl
  · intro set
    refine ⟨linkedFrom analysis, by rw [rules, if_pos set], ?_⟩
    intro file program
    have member := (mem_checked_programs.mp program).1
    exact ⟨stages.linked_from_strict member, fun object => stages.mem_linked_from_iff member⟩
  · rintro ⟨target, prerequisite⟩ listed
    obtain ⟨file, used, direct, rfl, rfl⟩ := stages.mem_edges_iff.mp listed
    dsimp only
    exact ⟨stages.object_mem_manifest direct.user, stages.object_mem_manifest direct.declaring⟩
  · rintro ⟨target, prerequisite⟩ listed
    obtain ⟨-, file, -, used, inUsed, rfl, rfl, -⟩ := stages.mem_link_rules_iff.mp listed
    dsimp only
    exact stages.object_mem_manifest inUsed

/-- A program that needs a module through another one, and an excluded file without a unit. -/
def linkTree : FileTree :=
  { FileTree.empty [] with nodes :=
    [(["p.f90"], .file "program p\n use b\n".toUTF8),
      (["b.f90"], .file "module b\n use a\n".toUTF8),
      (["a.f90"], .file "module a\n".toUTF8), (["x.f90"], .file "end\n".toUTF8)] }

def linkSettings : Settings where
  discovery := { files := [⟨"p.f90"⟩, ⟨"b.f90"⟩, ⟨"a.f90"⟩], exclude := [⟨"x.f90"⟩] }
  preprocess := { enabled := false }
  output := { linkRules := true }

def linkFiles : List ScannedFile :=
  [⟨⟨⟨"p.f90"⟩, false, false⟩, ⟨⟨"p.f90"⟩, .mainProgram, "p"⟩, [⟨⟨"p.f90"⟩, "b", false, 2⟩]⟩,
    ⟨⟨⟨"b.f90"⟩, false, false⟩, ⟨⟨"b.f90"⟩, .moduleUnit, "b"⟩, [⟨⟨"b.f90"⟩, "a", false, 2⟩]⟩,
    ⟨⟨⟨"a.f90"⟩, false, false⟩, ⟨⟨"a.f90"⟩, .moduleUnit, "a"⟩, []⟩]

def linkObjects : ObjectMap :=
  ⟨[(⟨"p.f90"⟩, "p.o"), (⟨"b.f90"⟩, "b.o"), (⟨"a.f90"⟩, "a.o"), (⟨"x.f90"⟩, "x.o")]⟩

def linkGraph : DependencyGraph :=
  .ofCalls [(⟨"p.f90"⟩, [⟨"b.f90"⟩]), (⟨"b.f90"⟩, [⟨"a.f90"⟩]), (⟨"a.f90"⟩, [])]

def linkAnalysis : Analysis where
  sources := linkFiles.map (·.source) ++ [⟨⟨"x.f90"⟩, true, false⟩]
  files := linkFiles
  index := (gatherIndex linkFiles).1
  objects := linkObjects
  graph := linkGraph
  listing := buildListing linkSettings.output linkObjects linkGraph linkFiles

theorem link_graph_acyclic : linkGraph.checkAcyclic = .ok () := by
  have first : Path.components ⟨"p.f90"⟩ = [.normal "p.f90"] := by decide +kernel
  have second : Path.components ⟨"b.f90"⟩ = [.normal "b.f90"] := by decide +kernel
  have third : Path.components ⟨"a.f90"⟩ = [.normal "a.f90"] := by decide +kernel
  have shape : ∃ positions, linkGraph =
      ⟨#[⟨"p.f90"⟩, ⟨"b.f90"⟩, ⟨"a.f90"⟩], positions, #[[1], [2], []]⟩ := by
    simp [linkGraph, DependencyGraph.ofCalls, DependencyGraph.addFiles, DependencyGraph.addFile,
      DependencyGraph.mention, DependencyGraph.contains, DependencyGraph.position?,
      DependencyGraph.empty, first, second, third, Std.HashMap.getElem?_insert,
      Std.HashMap.getElem_insert]
  obtain ⟨positions, same⟩ := shape
  rw [same]
  cbv

theorem link_stages : Stages linkTree linkSettings .verbatim linkAnalysis where
  discovered := rfl
  read := rfl
  scanned := by
    have first : scanSource linkTree .verbatim linkFiles[0].source = .ok linkFiles[0] := by cbv
    have second : scanSource linkTree .verbatim linkFiles[1].source = .ok linkFiles[1] := by cbv
    have third : scanSource linkTree .verbatim linkFiles[2].source = .ok linkFiles[2] := by cbv
    have last : scanSource linkTree .verbatim ⟨⟨"x.f90"⟩, true, false⟩ = .ok none := by cbv
    simp [linkFiles] at first second third
    apply scan_files_eq_ok.mpr
    simp [linkAnalysis, linkFiles, first, second, third, last, Except.toOption]
  indexed := by decide +kernel
  assigned := rfl
  resolved := rfl
  acyclic := link_graph_acyclic
  listed := rfl

/-- The program is linked from the module that it needs indirectly, and the excluded file has an
object although it has no unit. -/
theorem indirect_module_linked :
    analyze linkTree linkSettings = .ok linkAnalysis ∧
      Rule.mk "p" "a.o" ∈ linkAnalysis.listing.linkRules ∧
      linkAnalysis.manifest = ["p.o", "b.o", "a.o", "x.o"] ∧
      ∃ entries, linkAnalysis.orderEntries = .ok entries ∧ entries.length = 3 := by
  have success : analyze linkTree linkSettings = .ok linkAnalysis :=
    analyze_eq_ok.mpr ⟨.verbatim, link_stages⟩
  obtain ⟨-, linked, manifest, -, -, -, entries, found, listed⟩ := outputs_complete success
  obtain ⟨objects, rules, linkedFrom⟩ := linked rfl
  have uses {file used : ScannedFile} {edge : UseEdge} (member : edge ∈ file.uses)
      (plain : edge.intrinsic = false) (outside : (skipSet linkSettings).contains edge.name = false)
      (named : edge.name = used.declaration.name) : UsesUnit linkSettings file used :=
    ⟨edge, member, (must_resolve_iff linkSettings edge).mpr ⟨plain, outside⟩, named⟩
  have inMain : linkFiles[0] ∈ linkAnalysis.files := by simp [linkAnalysis]
  have inMiddle : linkFiles[1] ∈ linkAnalysis.files := by simp [linkAnalysis]
  have inLast : linkFiles[2] ∈ linkAnalysis.files := by simp [linkAnalysis]
  have direct : Prerequisite linkSettings linkAnalysis.files linkFiles[0] linkFiles[1] :=
    ⟨inMain, inMiddle, by decide +kernel, rfl,
      uses List.mem_cons_self rfl (by decide +kernel) rfl⟩
  have next : Prerequisite linkSettings linkAnalysis.files linkFiles[1] linkFiles[2] :=
    ⟨inMiddle, inLast, by decide +kernel, rfl,
      uses List.mem_cons_self rfl (by decide +kernel) rfl⟩
  have program : linkFiles[0] ∈ checkedPrograms linkAnalysis.files :=
    mem_checked_programs.mpr ⟨inMain, rfl, rfl⟩
  refine ⟨success, ?_, ?_, entries, found, ?_⟩
  · rw [rules, List.mem_flatMap]
    refine ⟨linkFiles[0], program, List.mem_map.mpr ⟨"a.o", ?_, by cbv⟩⟩
    exact ((linkedFrom linkFiles[0] program).2 "a.o").mpr
      ⟨linkFiles[2], inLast, by cbv, (ReflTransGen.single direct).tail next⟩
  · rw [manifest]
    rfl
  · have count := listed.perm.length_eq
    simpa [linkAnalysis, linkFiles] using count

end FortranDeps.Project

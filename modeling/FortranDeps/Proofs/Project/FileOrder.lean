import FortranDeps.Proofs.Discovery.Gathering
import FortranDeps.Proofs.Project.Failures
import FortranDeps.Proofs.Project.Outputs

/-!
The order in which files are listed. Listed in another order the same sources are found and the
same files are scanned, in another order as well. Whether a project is analysed depends on them
as a collection only, and so does every output that is looked up by a name: the index, the
objects, the prerequisites of each target and the objects of each program. The compile orders
can differ, but each of them is good for both.
-/

namespace FortranDeps

/-- The same settings with other files listed. -/
def DiscoverySettings.withFiles (settings : DiscoverySettings) (listed : List Path) :
    DiscoverySettings :=
  { settings with files := listed }

def Settings.withFiles (settings : Settings) (listed : List Path) : Settings :=
  { settings with discovery := settings.discovery.withFiles listed }

namespace Project

open Build FortranDeps.Units Relation

section Discovery

variable {tree : FileTree} {settings : DiscoverySettings} {listed : List Path}

theorem candidates_with_files (reordered : listed.Perm settings.files) {paths : List Path}
    (found : Discovery.candidates tree settings = .ok paths) :
    ∃ others, Discovery.candidates tree (settings.withFiles listed) = .ok others ∧
      others.Perm paths := by
  have explicit : (settings.withFiles listed).isExplicit = settings.isExplicit := by
    unfold DiscoverySettings.isExplicit DiscoverySettings.withFiles
    rw [reordered.isEmpty_eq]
  unfold Discovery.candidates at found ⊢
  rw [explicit]
  split at found
  · next given =>
      obtain ⟨lists, read, same⟩ := bind_eq_ok.mp found
      cases same
      rw [if_pos given]
      exact ⟨listed ++ lists.flatten, bind_eq_ok.mpr ⟨lists, read, rfl⟩,
        reordered.append_right lists.flatten⟩
  · next searched =>
      rw [if_neg searched]
      exact ⟨paths, found, .refl paths⟩

theorem discover_with_files (reordered : listed.Perm settings.files) {sources : List SourceFile}
    (found : Discovery.discover tree settings = .ok sources) :
    ∃ others, Discovery.discover tree (settings.withFiles listed) = .ok others ∧
      others.Perm sources := by
  obtain ⟨paths, candidates, same⟩ := bind_eq_ok.mp found
  cases same
  obtain ⟨others, found, perm⟩ := candidates_with_files reordered candidates
  refine ⟨_, bind_eq_ok.mpr ⟨others, found, rfl⟩, ?_⟩
  rw [Discovery.gather_eq, Discovery.gather_eq]
  apply List.Perm.map
  simp only [← List.map_append]
  exact Path.distinct_without_dots_perm
    ((perm.append_right settings.alwaysInclude).append_right settings.exclude)

end Discovery

variable {tree : FileTree} {settings : Settings} {listed : List Path} {lines : Reading}

/-- The files that are scanned are the same, in another order. -/
theorem Scanned.with_files {sources : List SourceFile} {files : List ScannedFile}
    (stages : Scanned tree settings lines sources files)
    (reordered : listed.Perm settings.discovery.files) :
    ∃ otherSources otherFiles,
      Scanned tree (settings.withFiles listed) lines otherSources otherFiles ∧
        otherSources.Perm sources ∧ otherFiles.Perm files := by
  obtain ⟨others, found, perm⟩ := discover_with_files reordered stages.discovered
  obtain ⟨fine, rfl⟩ := scan_files_eq_ok.mp stages.scanned
  refine ⟨others, _, ⟨found, stages.read, scan_files_eq_ok.mpr ⟨?_, rfl⟩⟩, perm,
    perm.filterMap _⟩
  intro source member
  exact fine source (perm.mem_iff.mp member)

theorem prerequisite_with_files {files others : List ScannedFile} (perm : others.Perm files) :
    Prerequisite (settings.withFiles listed) others = Prerequisite settings files := by
  funext file used
  apply propext
  constructor
  · intro direct
    exact ⟨perm.mem_iff.mp direct.user, perm.mem_iff.mp direct.declaring, direct.apart,
      direct.checked, direct.uses⟩
  · intro direct
    exact ⟨perm.mem_iff.mpr direct.user, perm.mem_iff.mpr direct.declaring, direct.apart,
      direct.checked, direct.uses⟩

theorem missing_with_files {files others : List ScannedFile} (perm : others.Perm files)
    (edge : UseEdge) : IsMissing (settings.withFiles listed) others edge ↔
      IsMissing settings files edge := by
  unfold IsMissing
  rw [(perm.map (·.declaration.name)).mem_iff]
  rfl

/-- Nothing is reported about the files in another order. -/
theorem Passes.with_files {sources otherSources : List SourceFile}
    {files otherFiles : List ScannedFile} (passes : Passes settings sources files)
    (sourcesPerm : otherSources.Perm sources) (filesPerm : otherFiles.Perm files) :
    Passes (settings.withFiles listed) otherSources otherFiles where
  names := (filesPerm.map _).nodup_iff.mpr passes.names
  objects := (sourcesPerm.map (objectOfSource settings)).nodup_iff.mpr passes.objects
  found := by
    have none := missing_uses_eq_nil_iff.mp passes.found
    apply missing_uses_eq_nil_iff.mpr
    rintro ⟨file, member, checked, edge, inside, missing⟩
    exact none ⟨file, filesPerm.mem_iff.mp member, checked, edge, inside,
      (missing_with_files filesPerm edge).mp missing⟩
  acyclic := by
    rw [prerequisite_with_files filesPerm]
    exact passes.acyclic

theorem exists_analysis_with_files (reordered : listed.Perm settings.discovery.files)
    (success : ∃ analysis, analyze tree settings = .ok analysis) :
    ∃ analysis, analyze tree (settings.withFiles listed) = .ok analysis := by
  obtain ⟨lines, sources, files, stages, passes⟩ := exists_analysis_iff.mp success
  obtain ⟨otherSources, otherFiles, others, sourcesPerm, filesPerm⟩ := stages.with_files reordered
  exact exists_analysis_iff.mpr
    ⟨lines, otherSources, otherFiles, others, passes.with_files sourcesPerm filesPerm⟩

/-! Outputs. -/

/-- The prerequisites of a target, in the order of the rules. -/
def prerequisitesOf (rules : List Rule) (target : String) : List String :=
  (rules.filter (·.target = target)).map (·.prerequisite)

/-- If no two files share a target, the rules of a target are those of one file. -/
theorem prerequisites_of_flat_map {target : ScannedFile → String}
    {group : ScannedFile → List String} {files : List ScannedFile}
    (distinct : (files.map target).Nodup) (name : String) :
    prerequisitesOf (files.flatMap fun file => (group file).map (Rule.mk (target file))) name =
      ((files.find? (target · = name)).map group).getD [] := by
  induction files with
  | nil => rfl
  | cons file rest induction =>
      obtain ⟨fresh, later⟩ := List.nodup_cons.mp distinct
      have split : prerequisitesOf ((file :: rest).flatMap fun file =>
            (group file).map (Rule.mk (target file))) name =
          prerequisitesOf ((group file).map (Rule.mk (target file))) name ++
            ((rest.find? (target · = name)).map group).getD [] := by
        rw [← induction later]
        simp [prerequisitesOf]
      rw [split]
      -- Either all rules of the first file count and no other ones, or none of them.
      by_cases same : target file = name
      · have own : rest.find? (target · = name) = none := by
          rw [List.find?_eq_none]
          intro other member equal
          apply fresh
          rw [same, ← of_decide_eq_true equal]
          exact List.mem_map_of_mem member
        rw [own]
        simp [prerequisitesOf, same, List.filter_map, Function.comp_def]
      · simp [prerequisitesOf, same, List.filter_map, Function.comp_def]

theorem prerequisites_of_perm {target : ScannedFile → String}
    {group other : ScannedFile → List String} {files others : List ScannedFile}
    (perm : others.Perm files) (distinct : (files.map target).Nodup)
    (agree : ∀ file ∈ files, other file = group file) (name : String) :
    prerequisitesOf (others.flatMap fun file => (other file).map (Rule.mk (target file))) name =
      prerequisitesOf (files.flatMap fun file => (group file).map (Rule.mk (target file)))
        name := by
  rw [prerequisites_of_flat_map distinct,
    prerequisites_of_flat_map ((perm.map target).nodup_iff.mpr distinct),
    find?_key_perm target perm distinct]
  cases found : files.find? (target · = name) with
  | none => rfl
  | some file =>
      have member := List.mem_of_find?_eq_some found
      exact agree file member

/-- Successful analyses of the same files, listed in two orders. -/
structure Shuffled (tree : FileTree) (settings : Settings) (listed : List Path) (lines : Reading)
    (analysis other : Analysis) : Prop where
  stages : Stages tree settings lines analysis
  others : Stages tree (settings.withFiles listed) lines other
  sources : other.sources.Perm analysis.sources
  files : other.files.Perm analysis.files

theorem shuffled_of_success {analysis other : Analysis}
    (reordered : listed.Perm settings.discovery.files)
    (success : analyze tree settings = .ok analysis)
    (otherSuccess : analyze tree (settings.withFiles listed) = .ok other) :
    ∃ lines, Shuffled tree settings listed lines analysis other := by
  obtain ⟨lines, stages⟩ := analyze_eq_ok.mp success
  obtain ⟨otherLines, others⟩ := analyze_eq_ok.mp otherSuccess
  obtain ⟨sources, files, scanned, sourcesPerm, filesPerm⟩ := stages.with_files reordered
  obtain rfl := Except.ok.inj (scanned.discovered.symm.trans others.discovered)
  obtain rfl := Except.ok.inj (scanned.read.symm.trans others.read)
  obtain rfl := Except.ok.inj (scanned.scanned.symm.trans others.scanned)
  exact ⟨lines, stages, others, sourcesPerm, filesPerm⟩

namespace Shuffled

variable {analysis other : Analysis} {file : ScannedFile}

theorem index_eq (shuffled : Shuffled tree settings listed lines analysis other) (name : String) :
    other.index.get? name = analysis.index.get? name := by
  apply Option.ext
  intro definition
  rw [get?_gather_index_iff shuffled.others.indexed, get?_gather_index_iff shuffled.stages.indexed]
  simp only [shuffled.files.mem_iff]

theorem objects_eq (shuffled : Shuffled tree settings listed lines analysis other) (path : Path) :
    other.objects.get? path = analysis.objects.get? path := by
  apply Option.ext
  intro object
  rw [ObjectNaming.get?_assigned_iff _ shuffled.others.assigned,
    ObjectNaming.get?_assigned_iff _ shuffled.stages.assigned,
    ((shuffled.sources.map (·.path)).map Path.components).mem_iff]
  rfl

theorem listed_objects_eq (shuffled : Shuffled tree settings listed lines analysis other)
    (member : file ∈ analysis.files) (checked : file.source.excluded = false) :
    listedObjects other file = listedObjects analysis file := by
  apply List.Pairwise.eq_of_mem_iff (listed_objects_strict other file)
    (listed_objects_strict analysis file)
  intro object
  rw [shuffled.others.mem_listed_objects_iff (shuffled.files.mem_iff.mpr member) checked,
    shuffled.stages.mem_listed_objects_iff member checked]
  simp only [shuffled.files.mem_iff]
  rfl

theorem linked_from_eq (shuffled : Shuffled tree settings listed lines analysis other)
    (member : file ∈ analysis.files) : linkedFrom other file = linkedFrom analysis file := by
  have otherMember := shuffled.files.mem_iff.mpr member
  apply List.Pairwise.eq_of_mem_iff (shuffled.others.linked_from_strict otherMember)
    (shuffled.stages.linked_from_strict member)
  intro object
  rw [shuffled.others.mem_linked_from_iff otherMember, shuffled.stages.mem_linked_from_iff member,
    prerequisite_with_files shuffled.files]
  simp only [shuffled.files.mem_iff]
  rfl

theorem edges_eq (shuffled : Shuffled tree settings listed lines analysis other)
    (target : String) :
    prerequisitesOf other.listing.edges target =
      prerequisitesOf analysis.listing.edges target := by
  rw [shuffled.others.edges_eq, shuffled.stages.edges_eq]
  apply prerequisites_of_perm (shuffled.files.filter _)
  · exact shuffled.stages.objects_nodup.sublist (List.filter_sublist.map _)
  · intro file member
    obtain ⟨inside, kept⟩ := List.mem_filter.mp member
    exact shuffled.listed_objects_eq inside (by simpa using kept)

theorem link_rules_eq (shuffled : Shuffled tree settings listed lines analysis other)
    (program : String) :
    prerequisitesOf other.listing.linkRules program =
      prerequisitesOf analysis.listing.linkRules program := by
  rw [shuffled.others.link_rules_eq, shuffled.stages.link_rules_eq]
  change prerequisitesOf (if settings.output.linkRules then _ else _) program = _
  split
  · apply prerequisites_of_perm ((shuffled.files.filter _).filter _)
    · exact shuffled.stages.programs_nodup
    · intro file member
      exact shuffled.linked_from_eq (mem_checked_programs.mp member).1
  · rfl

theorem manifest_perm (shuffled : Shuffled tree settings listed lines analysis other) :
    other.manifest.Perm analysis.manifest := by
  rw [shuffled.others.manifest_eq, shuffled.stages.manifest_eq]
  exact shuffled.sources.map _

theorem needs_iff (shuffled : Shuffled tree settings listed lines analysis other)
    (member : file ∈ analysis.files) {path : Path} :
    other.graph.Needs file.source.path path ↔ analysis.graph.Needs file.source.path path := by
  rw [shuffled.others.needs_iff (shuffled.files.mem_iff.mpr member),
    shuffled.stages.needs_iff member, prerequisite_with_files shuffled.files]

/-- The graphs have the same schedules. -/
theorem is_schedule_iff (shuffled : Shuffled tree settings listed lines analysis other)
    {order : List Path} : other.graph.IsSchedule order ↔ analysis.graph.IsSchedule order := by
  have filesPerm : other.graph.files.toList.Perm analysis.graph.files.toList :=
    shuffled.others.files_perm_discovered.trans
      ((shuffled.files.map _).trans shuffled.stages.files_perm_discovered.symm)
  have needs : ∀ path ∈ analysis.graph.files.toList, ∀ need,
      need ∈ other.graph.prerequisites path ↔ need ∈ analysis.graph.prerequisites path := by
    intro path inGraph need
    obtain ⟨file, member, rfl⟩ :=
      List.mem_map.mp (shuffled.stages.discovered_of_mem_files inGraph)
    exact shuffled.needs_iff member
  have listed (perm : order.Perm analysis.graph.files.toList) {before after : List Path}
      {file : Path} (split : order = before ++ file :: after) :
      file ∈ analysis.graph.files.toList := perm.mem_iff.mp (by simp [split])
  constructor
  · intro schedule
    have perm := schedule.perm.trans filesPerm
    refine ⟨perm, fun before file after split need needed => ?_⟩
    exact schedule.ordered before file after split need
      ((needs file (listed perm split) need).mpr needed)
  · intro schedule
    refine ⟨schedule.perm.trans filesPerm.symm, fun before file after split need needed => ?_⟩
    exact schedule.ordered before file after split need
      ((needs file (listed schedule.perm split) need).mp needed)

end Shuffled

theorem exists_schedule {analysis : Analysis} (stages : Stages tree settings lines analysis) :
    ∃ order, analysis.compileOrder = .ok order ∧ analysis.graph.IsSchedule order :=
  ⟨_, stages.formed.compile_order_of_acyclic stages.graph_acyclic,
    stages.formed.is_schedule_order stages.graph_acyclic⟩

/-- Two analyses give the same results: for each name the same definition, for each source the
same object, for each target and for each program the same prerequisites in the same order, the
same objects in the manifest, and compile orders that are good for both. -/
structure SameResults (first second : Analysis) : Prop where
  index : ∀ name, first.index.get? name = second.index.get? name
  objects : ∀ path, first.objects.get? path = second.objects.get? path
  edges : ∀ target, prerequisitesOf first.listing.edges target =
    prerequisitesOf second.listing.edges target
  linkRules : ∀ program, prerequisitesOf first.listing.linkRules program =
    prerequisitesOf second.listing.linkRules program
  manifest : first.manifest.Perm second.manifest
  orders : ∃ order other, first.compileOrder = .ok order ∧ second.compileOrder = .ok other ∧
    (first.graph.IsSchedule order ∧ first.graph.IsSchedule other) ∧
      second.graph.IsSchedule order ∧ second.graph.IsSchedule other

/-- The order in which files are listed decides neither whether a project is analysed nor what
the results are. -/
theorem file_order_has_no_influence (tree : FileTree) (settings : Settings) {listed : List Path}
    (reordered : listed.Perm settings.discovery.files) :
    ((∃ analysis, analyze tree (settings.withFiles listed) = .ok analysis) ↔
      ∃ analysis, analyze tree settings = .ok analysis) ∧
    ∀ first second, analyze tree settings = .ok first →
      analyze tree (settings.withFiles listed) = .ok second → SameResults first second := by
  constructor
  · constructor
    · -- Listing the first files again gives the settings back.
      exact @exists_analysis_with_files tree (settings.withFiles listed) settings.discovery.files
        reordered.symm
    · exact exists_analysis_with_files reordered
  · intro first second success otherSuccess
    obtain ⟨lines, shuffled⟩ := shuffled_of_success reordered success otherSuccess
    obtain ⟨order, computed, schedule⟩ := exists_schedule shuffled.stages
    obtain ⟨other, otherComputed, otherSchedule⟩ := exists_schedule shuffled.others
    exact
      { index := fun name => (shuffled.index_eq name).symm
        objects := fun path => (shuffled.objects_eq path).symm
        edges := fun target => (shuffled.edges_eq target).symm
        linkRules := fun program => (shuffled.link_rules_eq program).symm
        manifest := shuffled.manifest_perm.symm
        orders := ⟨order, other, computed, otherComputed,
          ⟨schedule, shuffled.is_schedule_iff.mp otherSchedule⟩,
          shuffled.is_schedule_iff.mpr schedule, otherSchedule⟩ }

/-- The module and the module that uses it, listed the other way around. -/
theorem swapped_files_same_results :
    [⟨"a.f90"⟩, ⟨"b.f90"⟩].Perm pairSettings.discovery.files ∧
      analyze pairTree pairSettings = .ok pairAnalysis ∧
      ∃ analysis, analyze pairTree (pairSettings.withFiles [⟨"a.f90"⟩, ⟨"b.f90"⟩]) = .ok analysis ∧
        SameResults pairAnalysis analysis := by
  have swapped : [⟨"a.f90"⟩, ⟨"b.f90"⟩].Perm pairSettings.discovery.files := .swap _ _ []
  have success : analyze pairTree pairSettings = .ok pairAnalysis :=
    analyze_eq_ok.mpr ⟨.verbatim, pair_stages⟩
  obtain ⟨succeeds, same⟩ := file_order_has_no_influence pairTree pairSettings swapped
  obtain ⟨analysis, otherSuccess⟩ := succeeds.mpr ⟨pairAnalysis, success⟩
  exact ⟨swapped, success, analysis, otherSuccess, same pairAnalysis analysis success otherSuccess⟩

end Project

end FortranDeps

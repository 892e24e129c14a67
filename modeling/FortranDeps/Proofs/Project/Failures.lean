import FortranDeps.Proofs.Project.Prerequisites

/-!
The failures of a project as a whole, once its files are scanned. There are three checkpoints:
names and objects that are taken twice, uses of modules that no file declares, and cycles. What
is reported at each of them is given by the scanned files alone, and a project that passes all
of them is analysed.
-/

namespace FortranDeps.Project

open Build FortranDeps.Units Relation

/-- The files whose names earlier files declare, each with the first one of them. -/
def nameClashes (files : List ScannedFile) : List Diagnostic :=
  repeats (·.declaration.name) (fun first file =>
    .duplicateDefinition file.declaration.name first.source.path file.source.path) files

/-- The sources whose objects earlier sources have, each with the first one of them. -/
def objectClashes (settings : Settings) (sources : List SourceFile) : List Diagnostic :=
  repeats (objectOfSource settings) (fun first source =>
    .duplicateObject (objectOfSource settings source) first.path source.path) sources

instance (settings : Settings) (edge : UseEdge) : Decidable (MustResolve settings edge) :=
  inferInstanceAs (Decidable (_ ∧ _ ∧ _))

/-- A use that has to be resolved, of a name that no file declares. -/
def IsMissing (settings : Settings) (files : List ScannedFile) (edge : UseEdge) : Prop :=
  MustResolve settings edge ∧ edge.name ∉ files.map (·.declaration.name)

instance (settings : Settings) (files : List ScannedFile) (edge : UseEdge) :
    Decidable (IsMissing settings files edge) :=
  inferInstanceAs (Decidable (_ ∧ _))

/-- The missing uses of the files that are checked, in the order of the files and of the uses. -/
def missingUses (settings : Settings) (files : List ScannedFile) : List Diagnostic :=
  (files.filter (!·.source.excluded)).flatMap fun file =>
    (file.uses.filter (IsMissing settings files)).map unresolved

theorem missing_uses_eq_nil_iff {settings : Settings} {files : List ScannedFile} :
    missingUses settings files = [] ↔
      ¬∃ file ∈ files, file.source.excluded = false ∧
        ∃ edge ∈ file.uses, IsMissing settings files edge := by
  simp [missingUses]

theorem missing_gather_graph (settings : Settings) (files : List ScannedFile) :
    (gatherGraph (gatherIndex files).1 (skipSet settings) files).2 =
      missingUses settings files := by
  have same (file : ScannedFile) : missingEdges (gatherIndex files).1 (skipSet settings) file =
      file.uses.filter (IsMissing settings files) := by
    apply List.filter_congr
    intro edge inside
    rw [decide_eq_decide, resolve_use_eq_missing, ← must_resolve_iff, lookup_gather_index_eq_none]
    rfl
  unfold gatherGraph
  rw [missing_gather]
  simp only [same]
  rfl

theorem clashes_eq_nil_iff {settings : Settings} {sources : List SourceFile}
    {files : List ScannedFile} :
    nameClashes files ++ objectClashes settings sources = [] ↔
      (files.map (·.declaration.name)).Nodup ∧ (sources.map (objectOfSource settings)).Nodup := by
  rw [List.append_eq_nil_iff]
  exact and_congr (repeats_eq_nil_iff _ _) (repeats_eq_nil_iff _ _)

theorem assign_cases (settings : Settings) (sources : List SourceFile) :
    ((sources.map (objectOfSource settings)).Nodup ∧
        ∃ objects, (naming settings).assign (sources.map (·.path)) = .ok objects) ∨
      (objectClashes settings sources ≠ [] ∧
        (naming settings).assign (sources.map (·.path)) =
          .error (objectClashes settings sources)) := by
  have clashes : ((naming settings).assignFrom [] (sources.map (·.path))).2 =
      objectClashes settings sources := by
    rw [ObjectNaming.clashes_assign_from, repeats_map]
    rfl
  unfold ObjectNaming.assign
  generalize (naming settings).assignFrom [] (sources.map (·.path)) = outcome at clashes
  obtain ⟨entries, shared⟩ := outcome
  obtain rfl : shared = objectClashes settings sources := clashes
  cases shared : objectClashes settings sources with
  | nil => exact .inl ⟨(repeats_eq_nil_iff _ _).mp shared, _, rfl⟩
  | cons clash rest => exact .inr ⟨List.cons_ne_nil clash rest, rfl⟩

theorem reported_of_assign (settings : Settings) (sources : List SourceFile) :
    reported ((naming settings).assign (sources.map (·.path))) =
      objectClashes settings sources := by
  rcases assign_cases settings sources with ⟨distinct, objects, assigned⟩ | ⟨-, failed⟩
  · rw [assigned]
    exact ((repeats_eq_nil_iff _ _).mpr distinct).symm
  · rw [failed]
    rfl

theorem exists_assigned {settings : Settings} {sources : List SourceFile}
    (distinct : (sources.map (objectOfSource settings)).Nodup) :
    ∃ objects, (naming settings).assign (sources.map (·.path)) = .ok objects := by
  rcases assign_cases settings sources with ⟨-, assigned⟩ | ⟨shared, -⟩
  · exact assigned
  · exact absurd ((repeats_eq_nil_iff _ _).mpr distinct) shared

namespace Scanned

variable {tree : FileTree} {settings : Settings} {lines : Reading} {sources : List SourceFile}
  {files : List ScannedFile}

theorem clashes_eq (stages : Scanned tree settings lines sources files) :
    (gatherIndex files).2 = nameClashes files := by
  rw [clashes_gather_index]
  apply repeats_congr
  intro first inFirst file member
  rw [stages.declared_file inFirst, stages.declared_file member]

/-- What is left of an analysis behind the scan. -/
theorem analyze_eq (stages : Scanned tree settings lines sources files) :
    analyze tree settings = (do
      stopOn settings.resolve.mode (nameClashes files ++ objectClashes settings sources)
      stopOn settings.resolve.mode (missingUses settings files)
      let objects := ((naming settings).assign (sources.map (·.path))).toOption.getD ObjectMap.empty
      let graph := (gatherGraph (gatherIndex files).1 (skipSet settings) files).1
      orFail graph.checkAcyclic
      return ⟨sources, files, (gatherIndex files).1, objects, graph,
        buildListing settings.output objects graph files⟩) := by
  rw [← stages.clashes_eq, ← reported_of_assign, ← missing_gather_graph, analyze_eq_stages,
    stages.discovered, stages.read]
  change (scanFiles tree lines settings.resolve.mode sources >>= _) = _
  rw [stages.scanned]
  rfl

/-- Without clashes and missing uses only a cycle is left to be reported. -/
theorem exists_resolved (stages : Scanned tree settings lines sources files)
    (names : (files.map (·.declaration.name)).Nodup)
    (distinct : (sources.map (objectOfSource settings)).Nodup)
    (found : missingUses settings files = []) :
    ∃ analysis, Resolved tree settings lines analysis ∧ analysis.files = files ∧
      analyze tree settings = (orFail analysis.graph.checkAcyclic >>= fun _ => .ok analysis) := by
  have free := clashes_eq_nil_iff.mpr ⟨names, distinct⟩
  have unclashed : nameClashes files = [] := (List.append_eq_nil_iff.mp free).1
  obtain ⟨objects, assigned⟩ := exists_assigned distinct
  let graph := (gatherGraph (gatherIndex files).1 (skipSet settings) files).1
  refine ⟨⟨sources, files, (gatherIndex files).1, objects, graph,
    buildListing settings.output objects graph files⟩, ⟨stages, ?_, assigned, ?_⟩, rfl, ?_⟩
  · exact Prod.ext rfl (stages.clashes_eq.trans unclashed)
  · exact Prod.ext rfl ((missing_gather_graph settings files).trans found)
  · rw [stages.analyze_eq, free, assigned, found]
    cases settings.resolve.mode <;> rfl

theorem analyze_cases (stages : Scanned tree settings lines sources files)
    (names : (files.map (·.declaration.name)).Nodup)
    (objects : (sources.map (objectOfSource settings)).Nodup)
    (found : missingUses settings files = []) :
    ((∀ file, ¬TransGen (Prerequisite settings files) file file) ∧
        ∃ analysis, analyze tree settings = .ok analysis) ∨
      ((∃ file, TransGen (Prerequisite settings files) file file) ∧
        ∃ cycle, analyze tree settings = .error [.dependencyCycle cycle]) := by
  obtain ⟨analysis, resolved, rfl, outcome⟩ := stages.exists_resolved names objects found
  rw [outcome]
  rcases resolved.formed.check_acyclic_cases with ⟨acyclic, passed⟩ | ⟨cyclic, cycle, failed⟩
  · rw [passed]
    exact .inl ⟨resolved.acyclic_iff.mp acyclic, analysis, rfl⟩
  · rw [failed]
    rw [resolved.acyclic_iff, not_forall_not] at cyclic
    exact .inr ⟨cyclic, cycle, rfl⟩

end Scanned

/-- Nothing is reported at any checkpoint. -/
structure Passes (settings : Settings) (sources : List SourceFile) (files : List ScannedFile) :
    Prop where
  names : (files.map (·.declaration.name)).Nodup
  objects : (sources.map (objectOfSource settings)).Nodup
  found : missingUses settings files = []
  acyclic : ∀ file, ¬TransGen (Prerequisite settings files) file file

theorem Stages.passes {tree : FileTree} {settings : Settings} {lines : Reading}
    {analysis : Analysis} (stages : Stages tree settings lines analysis) :
    Passes settings analysis.sources analysis.files where
  names := names_nodup stages.indexed
  objects := stages.sources_nodup
  found := by
    have none := missing_gather_graph settings analysis.files
    rw [stages.indexed, stages.resolved] at none
    exact none.symm
  acyclic := stages.acyclic_iff.mp stages.graph_acyclic

/-- A project is analysed exactly if its files are scanned and nothing is reported. -/
theorem exists_analysis_iff {tree : FileTree} {settings : Settings} :
    (∃ analysis, analyze tree settings = .ok analysis) ↔
      ∃ lines sources files, Scanned tree settings lines sources files ∧
        Passes settings sources files := by
  constructor
  · rintro ⟨analysis, success⟩
    obtain ⟨lines, stages⟩ := analyze_eq_ok.mp success
    exact ⟨lines, analysis.sources, analysis.files, stages.toScanned, stages.passes⟩
  · rintro ⟨lines, sources, files, stages, passes⟩
    rcases stages.analyze_cases passes.names passes.objects passes.found with
      ⟨-, success⟩ | ⟨⟨file, cycle⟩, -⟩
    · exact success
    · exact absurd cycle (passes.acyclic file)

/-- With accumulation a project fails with all of its failures at the first checkpoint that it
does not pass, and with nothing else: with the names and then the objects that are taken twice;
without such, with the missing uses; without such, with a cycle if there is one. -/
theorem accumulated_failures_exact {tree : FileTree} {settings : Settings} {lines : Reading}
    {sources : List SourceFile} {files : List ScannedFile}
    (stages : Scanned tree settings lines sources files)
    (mode : settings.resolve.mode = .accumulate) :
    (¬((files.map (·.declaration.name)).Nodup ∧
        (sources.map (objectOfSource settings)).Nodup) →
      analyze tree settings = .error (nameClashes files ++ objectClashes settings sources)) ∧
    ((files.map (·.declaration.name)).Nodup → (sources.map (objectOfSource settings)).Nodup →
      ((∃ file ∈ files, file.source.excluded = false ∧
          ∃ edge ∈ file.uses, IsMissing settings files edge) →
        analyze tree settings = .error (missingUses settings files)) ∧
      ((¬∃ file ∈ files, file.source.excluded = false ∧
          ∃ edge ∈ file.uses, IsMissing settings files edge) →
        ((∃ cycle, analyze tree settings = .error [.dependencyCycle cycle]) ↔
          ∃ file, TransGen (Prerequisite settings files) file file) ∧
        ((∃ analysis, analyze tree settings = .ok analysis) ↔
          ∀ file, ¬TransGen (Prerequisite settings files) file file))) := by
  constructor
  · intro repeated
    have clashes := (not_congr clashes_eq_nil_iff).mpr repeated
    rw [stages.analyze_eq, mode, stop_on_accumulate clashes]
    rfl
  intro names distinct
  constructor
  · intro some
    have missing : missingUses settings files ≠ [] := by
      intro none
      exact missing_uses_eq_nil_iff.mp none some
    obtain ⟨objects, assigned⟩ := exists_assigned distinct
    rw [stages.analyze_eq, mode, clashes_eq_nil_iff.mpr ⟨names, distinct⟩, assigned,
      stop_on_accumulate missing]
    rfl
  · intro none
    have found := missing_uses_eq_nil_iff.mpr none
    rcases stages.analyze_cases names distinct found with
      ⟨acyclic, analysis, success⟩ | ⟨cyclic, cycle, failed⟩
    · rw [success]
      refine ⟨iff_of_false ?_ ?_, iff_of_true ⟨analysis, rfl⟩ acyclic⟩
      · rintro ⟨cycle, impossible⟩
        cases impossible
      · rintro ⟨file, cycle⟩
        exact acyclic file cycle
    · rw [failed]
      refine ⟨iff_of_true ⟨cycle, rfl⟩ cyclic, iff_of_false ?_ ?_⟩
      · rintro ⟨analysis, impossible⟩
        cases impossible
      · intro acyclic
        obtain ⟨file, cycle⟩ := cyclic
        exact acyclic file cycle

/-- Three files declare one name, and two of them have one object. -/
def clashTree : FileTree :=
  { FileTree.empty [] with nodes :=
    [(["a.f90"], .file "module x\n".toUTF8), (["b.f90"], .file "module x\n".toUTF8),
      (["d"], .directory), (["d", "a.f90"], .file "module x\n".toUTF8)] }

def clashSettings : Settings where
  discovery := { files := [⟨"a.f90"⟩, ⟨"b.f90"⟩, ⟨"d/a.f90"⟩] }
  preprocess := { enabled := false }

def clashFiles : List ScannedFile :=
  [⟨⟨⟨"a.f90"⟩, false, false⟩, ⟨⟨"a.f90"⟩, .moduleUnit, "x"⟩, []⟩,
    ⟨⟨⟨"b.f90"⟩, false, false⟩, ⟨⟨"b.f90"⟩, .moduleUnit, "x"⟩, []⟩,
    ⟨⟨⟨"d/a.f90"⟩, false, false⟩, ⟨⟨"d/a.f90"⟩, .moduleUnit, "x"⟩, []⟩]

theorem clash_scanned :
    Scanned clashTree clashSettings .verbatim (clashFiles.map (·.source)) clashFiles where
  discovered := rfl
  read := rfl
  scanned := by
    have first : scanSource clashTree .verbatim clashFiles[0].source = .ok clashFiles[0] := by cbv
    have second : scanSource clashTree .verbatim clashFiles[1].source = .ok clashFiles[1] := by cbv
    have third : scanSource clashTree .verbatim clashFiles[2].source = .ok clashFiles[2] := by cbv
    simp [clashFiles] at first second third
    apply scan_files_eq_ok.mpr
    simp [clashFiles, first, second, third, Except.toOption]

/-- The later files are both reported with the first one, and the shared object after them. -/
theorem every_clash_reported :
    analyze clashTree clashSettings = .error
      [.duplicateDefinition "x" ⟨"a.f90"⟩ ⟨"b.f90"⟩,
        .duplicateDefinition "x" ⟨"a.f90"⟩ ⟨"d/a.f90"⟩,
        .duplicateObject "a.o" ⟨"a.f90"⟩ ⟨"d/a.f90"⟩] := by
  have failed := (accumulated_failures_exact clash_scanned rfl).1 (by decide +kernel)
  rw [failed]
  rfl

end FortranDeps.Project

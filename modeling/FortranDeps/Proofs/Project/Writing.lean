import FortranDeps.Proofs.Files.Staging
import FortranDeps.Proofs.Project.Stages

/-!
What a run does to the file tree. Once every output is staged, committing them is the same
as moving the files into place one after the other, and nothing that was moved is moved
back. A failed run therefore leaves the tree as it was unless the listing is in place when
the manifest fails.
-/

namespace FortranDeps.Project

open Build FortranDeps.Units FortranDeps.StagedWrite

/-- Moves files into place in order, up to the first one that does not land. -/
def moveAll : List (Path × String) → FileTree → Except Diagnostic Unit × FileTree
  | [], tree => (.ok (), tree)
  | (path, text) :: rest, tree =>
      match tree.landing path with
      | .error fault => (.error (.io path fault.message), tree)
      | .ok place => moveAll rest (tree.put place (.file text.toUTF8))

/-- Staging outputs that may be staged gives one waiting write for each of them. -/
theorem stage_all_of_stageable {overwrite : Bool} {files : List (Path × String)}
    {tree : FileTree} (stageable : ∀ file ∈ files, Stageable tree overwrite file.1) :
    ∃ writes, tree.Apart writes ∧
      writes.map (fun write => (write.path, write.temporary.content)) =
        files.map (fun file => (file.1, file.2.toUTF8)) ∧
      stageAll overwrite files tree =
        (.ok (writes.map Pending.staged), tree.awaiting writes) := by
  induction files generalizing tree with
  | nil =>
      refine ⟨[], .nil tree, rfl, ?_⟩
      rw [tree.awaiting_nil]
      rfl
  | cons file rest induction =>
      obtain ⟨path, text⟩ := file
      obtain ⟨place, staged⟩ :=
        StagedWrite.stage_of_stageable (stageable (path, text) List.mem_cons_self) text.toUTF8
      -- The later outputs are staged while the first one waits.
      obtain ⟨writes, apart, same, later⟩ :=
        @induction (tree.awaiting [⟨path, tree.freshId, place, text.toUTF8⟩]) fun file member =>
          StagedWrite.stageable_awaiting.mpr (stageable file (List.mem_cons_of_mem _ member))
      refine ⟨⟨path, tree.freshId, place, text.toUTF8⟩ :: writes, apart.cons_fresh, ?_, ?_⟩
      · rw [List.map_cons, List.map_cons, same]
      · unfold stageAll
        simp only [staged, later]
        rw [FileTree.awaiting_awaiting]
        rfl

/-- If one of the outputs is refused, those staged before it leave nothing behind. -/
theorem stage_all_of_refused {overwrite : Bool} {files : List (Path × String)}
    {tree : FileTree} (refused : ¬ ∀ file ∈ files, Stageable tree overwrite file.1) :
    ∃ diagnostic, stageAll overwrite files tree = (.error diagnostic, tree) := by
  induction files generalizing tree with
  | nil => exact absurd (by simp) refused
  | cons file rest induction =>
      obtain ⟨path, text⟩ := file
      unfold stageAll
      by_cases first : Stageable tree overwrite path
      · obtain ⟨place, staged⟩ := StagedWrite.stage_of_stageable first text.toUTF8
        have others : ¬ ∀ file ∈ rest, Stageable
            (tree.awaiting [⟨path, tree.freshId, place, text.toUTF8⟩]) overwrite file.1 := by
          intro all
          apply refused
          intro file member
          rcases List.mem_cons.mp member with rfl | later
          · exact first
          · exact StagedWrite.stageable_awaiting.mp (all file later)
        obtain ⟨diagnostic, failed⟩ := induction others
        have dropped := (FileTree.Apart.nil
          (tree.awaiting [⟨path, tree.freshId, place, text.toUTF8⟩])).cons_fresh.drop_first
        rw [tree.awaiting_nil] at dropped
        refine ⟨diagnostic, ?_⟩
        simp only [staged, failed]
        exact congrArg (Prod.mk (Except.error diagnostic)) dropped
      · obtain ⟨diagnostic, failed⟩ := StagedWrite.stage_of_not_stageable first text.toUTF8
        exact ⟨diagnostic, by simp only [failed]⟩

/-- Committing waiting writes moves their files; after a failure the others are dropped. -/
theorem commit_all_awaiting {files : List (Path × String)} {tree : FileTree}
    {writes : List Pending} (apart : tree.Apart writes)
    (same : writes.map (fun write => (write.path, write.temporary.content)) =
      files.map (fun file => (file.1, file.2.toUTF8))) :
    commitAll (writes.map Pending.staged) (tree.awaiting writes) = moveAll files tree := by
  induction writes generalizing tree files with
  | nil =>
      obtain rfl := List.map_eq_nil_iff.mp same.symm
      rw [tree.awaiting_nil]
      rfl
  | cons write rest induction =>
      obtain ⟨⟨path, text⟩, others, rfl, own, agree⟩ := List.map_eq_cons_iff.mp same.symm
      obtain ⟨rfl, content⟩ := Prod.mk.inj own
      rw [List.map_cons]
      unfold commitAll moveAll
      rw [apart.commit_first]
      cases tree.landing write.path with
      | error fault => simp only [apart.tail.drop_all]
      | ok place =>
          simp only
          rw [← content]
          exact induction ⟨apart.tail.nodup, apart.tail.fresh⟩ agree.symm

theorem run_of_stageable {tree : FileTree} {settings : Settings} {analysis : Analysis}
    (analyzed : analyze tree settings = .ok analysis)
    (stageable : ∀ output ∈ outputs settings analysis,
      Stageable tree settings.output.overwrite output.1) :
    run tree settings =
      (orFail ((moveAll (outputs settings analysis) tree).1.map fun _ => analysis),
        (moveAll (outputs settings analysis) tree).2) := by
  obtain ⟨writes, apart, same, staged⟩ := stage_all_of_stageable stageable
  unfold run
  rw [analyzed]
  simp only [staged, commit_all_awaiting apart same]
  obtain ⟨result, after⟩ := moveAll (outputs settings analysis) tree
  cases result with
  | error diagnostic => rfl
  | ok done => rfl

theorem run_of_refused {tree : FileTree} {settings : Settings} {analysis : Analysis}
    (analyzed : analyze tree settings = .ok analysis)
    (refused : ¬ ∀ output ∈ outputs settings analysis,
      Stageable tree settings.output.overwrite output.1) :
    (run tree settings).2 = tree := by
  obtain ⟨diagnostic, failed⟩ := stage_all_of_refused refused
  unfold run
  simp only [analyzed, failed]

/-- What the listing destination holds once the listing is in place. -/
def listingFile (analysis : Analysis) : Node := .file analysis.listing.render.toUTF8

/-- The state before a run in which the listing lands at a place, and after that the
manifest does not land. -/
structure StopsHalfway (tree : FileTree) (settings : Settings) (analysis : Analysis)
    (place : Place) : Prop where
  analyzed : analyze tree settings = .ok analysis
  automatic : settings.isAutomatic = true
  stageable : ∀ output ∈ outputs settings analysis,
    Stageable tree settings.output.overwrite output.1
  lands : tree.landing settings.output.listing = .ok place
  blocked : ∃ fault,
    (tree.put place (listingFile analysis)).landing settings.output.manifest = .error fault

theorem StopsHalfway.run_eq {tree : FileTree} {settings : Settings} {analysis : Analysis}
    {place : Place} (stops : StopsHalfway tree settings analysis place) :
    ∃ diagnostic, run tree settings =
      (.error [diagnostic], tree.put place (listingFile analysis)) := by
  obtain ⟨analyzed, automatic, stageable, lands, fault, blocked⟩ := stops
  refine ⟨.io settings.output.manifest fault.message, ?_⟩
  rw [run_of_stageable analyzed stageable]
  unfold listingFile at blocked
  simp only [outputs, automatic, if_true, moveAll, lands, blocked]
  rfl

/-- A failed run leaves the tree as it was or stops halfway. -/
theorem run_failed {tree : FileTree} {settings : Settings} {failures : List Diagnostic}
    {after : FileTree} (failed : run tree settings = (.error failures, after)) :
    after = tree ∨ ∃ analysis place, StopsHalfway tree settings analysis place := by
  cases analyzed : analyze tree settings with
  | error reported =>
      left
      unfold run at failed
      rw [analyzed] at failed
      exact (congrArg Prod.snd failed).symm
  | ok analysis =>
      by_cases stageable : ∀ output ∈ outputs settings analysis,
          Stageable tree settings.output.overwrite output.1
      · rw [run_of_stageable analyzed stageable] at failed
        cases lands : tree.landing settings.output.listing with
        | error fault =>
            left
            simp only [outputs, moveAll, lands] at failed
            exact (congrArg Prod.snd failed).symm
        | ok place =>
            right
            have automatic : settings.isAutomatic = true := by
              by_contra explicit
              simp only [outputs, if_neg explicit, moveAll, lands] at failed
              cases failed
            refine ⟨analysis, place, analyzed, automatic, stageable, lands, ?_⟩
            cases second : (tree.put place (listingFile analysis)).landing
                settings.output.manifest with
            | error fault => exact ⟨fault, rfl⟩
            | ok other =>
                unfold listingFile at second
                simp only [outputs, if_pos automatic, moveAll, lands, second] at failed
                cases failed
      · left
        have kept := run_of_refused analyzed stageable
        rw [failed] at kept
        exact kept

/-- A failed run leaves no temporary file, and leaves every file as it was unless the
manifest fails after the listing has replaced something else. Then the listing is the only
file that has changed. -/
theorem failed_run_keeps_files_iff {tree : FileTree} {settings : Settings}
    {failures : List Diagnostic} {after : FileTree}
    (failed : run tree settings = (.error failures, after)) :
    after.temporaries = tree.temporaries ∧
    (after.node? = tree.node? ↔ ¬ ∃ analysis place,
      StopsHalfway tree settings analysis place ∧
        tree.node? place ≠ some (listingFile analysis)) ∧
    ∀ place, after.node? place ≠ tree.node? place →
      ∃ analysis, StopsHalfway tree settings analysis place ∧
        after.node? place = some (listingFile analysis) := by
  by_cases halfway : ∃ analysis place, StopsHalfway tree settings analysis place
  · obtain ⟨analysis, place, stops⟩ := halfway
    obtain ⟨diagnostic, outcome⟩ := stops.run_eq
    rw [failed] at outcome
    obtain rfl := congrArg Prod.snd outcome
    have changed (other : Place) : (tree.put place (listingFile analysis)).node? other =
        if other = place then some (listingFile analysis) else tree.node? other :=
      FileTree.node?_put (FileTree.is_directory_of_landing stops.lands) other
    refine ⟨rfl, ⟨?_, ?_⟩, ?_⟩
    · rintro same ⟨other, there, again, differ⟩
      obtain rfl := Except.ok.inj (stops.analyzed.symm.trans again.analyzed)
      obtain rfl := Except.ok.inj (stops.lands.symm.trans again.lands)
      apply differ
      rw [← same, changed, if_pos rfl]
    · intro kept
      have already : tree.node? place = some (listingFile analysis) := by
        by_contra differ
        exact kept ⟨analysis, place, stops, differ⟩
      funext other
      rw [changed]
      split
      · next own => rw [own, already]
      · rfl
    · intro other differ
      rw [changed] at differ
      by_cases own : other = place
      · subst own
        exact ⟨analysis, stops, by rw [changed, if_pos rfl]⟩
      · rw [if_neg own] at differ
        exact absurd rfl differ
  · rcases run_failed failed with rfl | stops
    · refine ⟨rfl, ⟨?_, fun _ => rfl⟩, fun place differ => absurd rfl differ⟩
      rintro - ⟨analysis, place, stops, -⟩
      exact halfway ⟨analysis, place, stops⟩
    · exact absurd stops halfway

/-- A tree with an older listing, in which a directory stands where the manifest goes. -/
def blockedTree : FileTree :=
  { FileTree.empty [] with nodes :=
    [(["a.f90"], .file "module a\n".toUTF8), (["depends.mak"], .file "old\n".toUTF8),
      (["objects.mak"], .directory)] }

def blockedSettings : Settings where
  discovery := { roots := [⟨"a.f90"⟩] }
  preprocess := { enabled := false }
  output := { overwrite := true }

def blockedGraph : DependencyGraph := .ofCalls [(⟨"a.f90"⟩, [])]

def blockedAnalysis : Analysis where
  sources := [⟨⟨"a.f90"⟩, false, false⟩]
  files := [⟨⟨⟨"a.f90"⟩, false, false⟩, ⟨⟨"a.f90"⟩, .moduleUnit, "a"⟩, []⟩]
  index := ⟨[("a", ⟨⟨"a.f90"⟩, .moduleUnit⟩)]⟩
  objects := ⟨[(⟨"a.f90"⟩, "a.o")]⟩
  graph := blockedGraph
  listing := ⟨[], []⟩

theorem blocked_graph_acyclic : blockedGraph.checkAcyclic = .ok () := by
  have shape : ∃ positions, blockedGraph = ⟨#[⟨"a.f90"⟩], positions, #[[]]⟩ := by
    simp [blockedGraph, DependencyGraph.ofCalls, DependencyGraph.addFiles,
      DependencyGraph.addFile, DependencyGraph.mention, DependencyGraph.contains,
      DependencyGraph.position?, DependencyGraph.empty]
  obtain ⟨positions, same⟩ := shape
  rw [same]
  cbv

theorem blocked_graph_prerequisites : blockedGraph.prerequisites ⟨"a.f90"⟩ = [] := by
  have needs : (blockedGraph.prerequisites ⟨"a.f90"⟩).map Path.components = [] := by
    rw [blockedGraph, DependencyGraph.prerequisites_of_calls]
    rfl
  exact List.map_eq_nil_iff.mp needs

theorem blocked_stages : Stages blockedTree blockedSettings .verbatim blockedAnalysis where
  discovered := by cbv
  read := rfl
  scanned := by cbv
  indexed := by decide +kernel
  assigned := rfl
  resolved := rfl
  acyclic := blocked_graph_acyclic
  listed := by
    show _ = Listing.empty.addTarget _ ((blockedGraph.prerequisites ⟨"a.f90"⟩).map _)
    rw [blocked_graph_prerequisites]
    cbv

theorem blocked_stops :
    StopsHalfway blockedTree blockedSettings blockedAnalysis ["depends.mak"] where
  analyzed := analyze_eq_ok.mpr ⟨.verbatim, blocked_stages⟩
  automatic := rfl
  stageable := by
    intro output member
    refine ⟨.inl rfl, [], ?_, rfl⟩
    rcases List.mem_cons.mp member with rfl | later
    · cbv
    · rw [List.mem_singleton.mp later]
      cbv
  lands := by cbv
  blocked := ⟨.isDirectory, by cbv⟩

/-- The older listing is gone after a run that reports a failure. -/
theorem blocked_run_replaces_listing :
    ∃ failures after, run blockedTree blockedSettings = (.error failures, after) ∧
      after.temporaries = [] ∧ after.node? ≠ blockedTree.node? := by
  obtain ⟨diagnostic, failed⟩ := blocked_stops.run_eq
  have older : blockedTree.node? ["depends.mak"] ≠ some (listingFile blockedAnalysis) := by
    decide +kernel
  have outcome := failed_run_keeps_files_iff failed
  refine ⟨[diagnostic], _, failed, outcome.1, ?_⟩
  intro same
  exact outcome.2.1.mp same ⟨blockedAnalysis, ["depends.mak"], blocked_stops, older⟩

end FortranDeps.Project

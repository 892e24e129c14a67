import FortranDeps.Proofs.Files.Desk
import FortranDeps.Proofs.Project.Writing

/-!
What the guard against overwriting holds back. A file that stands when a guarded write is staged is
never replaced by it, so a guarded run keeps all files that it finds. A file that lands between the
two steps of a write is replaced, which a run does to its own listing if the manifest has the same
destination.
-/

namespace FortranDeps.Project

open Build FileTree StagedWrite

/-- A tree in which files have landed: it has the files of the tree before, and leads to no new
places. -/
structure Keeps (before tree : FileTree) : Prop where
  files : ∀ place, before.HoldsFile place → tree.node? place = before.node? place
  places : ∀ path place, tree.landing path = .ok place → before.landing path = .ok place

theorem Keeps.put {before tree : FileTree} (keeps : Keeps before tree) {path : Path}
    (absent : before.contains path = false) {place : Place} (lands : tree.landing path = .ok place)
    (content : ByteArray) : Keeps before (tree.put place (.file content)) := by
  have free := is_directory_of_landing lands
  constructor
  · intro other file
    have elsewhere : other ≠ place := by
      rintro rfl
      have found := contains_of_landing (keeps.places path other lands) file
      rw [absent] at found
      cases found
    rw [node?_put free, if_neg elsewhere]
    exact keeps.files other file
  · intro other there reached
    exact keeps.places other there (landing_of_put free reached)

/-- Files that are moved to paths under which nothing was found replace no older file. -/
theorem keeps_move_all {before tree : FileTree} (keeps : Keeps before tree)
    {files : List (Path × String)} (absent : ∀ file ∈ files, before.contains file.1 = false) :
    Keeps before (moveAll files tree).2 := by
  induction files generalizing tree with
  | nil => exact keeps
  | cons file rest induction =>
      obtain ⟨path, text⟩ := file
      obtain ⟨own, others⟩ := List.forall_mem_cons.mp absent
      unfold moveAll
      cases lands : tree.landing path with
      | error fault => exact keeps
      | ok place => exact induction (keeps.put own lands text.toUTF8) others

theorem guarded_run_keeps_files {tree : FileTree} {settings : Settings}
    (guarded : settings.output.overwrite = false) {place : Place} (file : tree.HoldsFile place) :
    (run tree settings).2.node? place = tree.node? place := by
  cases analyzed : analyze tree settings with
  | error failures =>
      unfold run
      rw [analyzed]
  | ok analysis =>
      by_cases stageable : ∀ output ∈ outputs settings analysis,
          Stageable tree settings.output.overwrite output.1
      · have absent : ∀ output ∈ outputs settings analysis, tree.contains output.1 = false := by
          intro output member
          rcases (stageable output member).1 with allowed | absent
          · rw [guarded] at allowed
            cases allowed
          · exact absent
        have same : Keeps tree tree := ⟨fun _ _ => rfl, fun _ _ lands => lands⟩
        rw [run_of_stageable analyzed stageable]
        exact (keeps_move_all same absent).files place file
      · rw [run_of_refused analyzed stageable]

/-- The state before a run in which the listing lands at a place, and after that the manifest. -/
structure WritesBoth (tree : FileTree) (settings : Settings) (analysis : Analysis)
    (first second : Place) : Prop where
  analyzed : analyze tree settings = .ok analysis
  automatic : settings.isAutomatic = true
  stageable : ∀ output ∈ outputs settings analysis,
    Stageable tree settings.output.overwrite output.1
  lands : tree.landing settings.output.listing = .ok first
  manifestLands :
    (tree.put first (listingFile analysis)).landing settings.output.manifest = .ok second

def manifestFile (analysis : Analysis) : Node := .file (renderManifest analysis.manifest).toUTF8

namespace WritesBoth

variable {tree : FileTree} {settings : Settings} {analysis : Analysis} {first second : Place}
  (writes : WritesBoth tree settings analysis first second)

include writes

theorem run_eq :
    run tree settings = (.ok analysis,
      (tree.put first (listingFile analysis)).put second (manifestFile analysis)) := by
  have lands := writes.lands
  have manifest := writes.manifestLands
  rw [run_of_stageable writes.analyzed writes.stageable]
  unfold listingFile at manifest
  simp only [outputs, writes.automatic, if_true, moveAll, lands, manifest]
  rfl

/-- In a guarded run the manifest meets a file only where the listing has just landed. -/
theorem meets_iff (guarded : settings.output.overwrite = false) :
    (tree.put first (listingFile analysis)).HoldsFile second ↔ second = first := by
  have free := is_directory_of_landing writes.lands
  have member : (settings.output.manifest, renderManifest analysis.manifest) ∈
      outputs settings analysis := by
    simp [outputs, writes.automatic]
  have absent : tree.contains settings.output.manifest = false := by
    rcases (writes.stageable _ member).1 with allowed | absent
    · rw [guarded] at allowed
      cases allowed
    · exact absent
  have changed : (tree.put first (listingFile analysis)).node? second =
      if second = first then some (listingFile analysis) else tree.node? second :=
    node?_put free second
  constructor
  · rintro ⟨content, stands⟩
    rw [changed] at stands
    by_contra elsewhere
    rw [if_neg elsewhere] at stands
    -- A file that stood there before would have been found when the manifest was staged.
    have before := landing_of_put free writes.manifestLands
    have found := contains_of_landing before ⟨content, stands⟩
    rw [absent] at found
    cases found
  · intro same
    rw [if_pos same] at changed
    exact ⟨_, changed⟩

end WritesBoth

theorem meets_none_of_write_file {tree after : FileTree} {path : Path} {content : ByteArray}
    (done : tree.writeFile path content false = (.ok (), after)) :
    ∃ place, tree.landing path = .ok place ∧ ¬ tree.HoldsFile place := by
  unfold writeFile at done
  cases staging : stage tree path content false with
  | error diagnostic =>
      rw [staging] at done
      cases done
  | ok result =>
      obtain ⟨staged, opened⟩ := result
      obtain ⟨rfl, guard, temporaries, rfl⟩ := stage_eq_ok staging
      simp only [staging] at done
      rcases staged.commit_cases { tree with temporaries := temporaries } with
        ⟨diagnostic, failed⟩ | ⟨place, _, lands, -⟩
      · rw [failed] at done
        cases done
      · rw [landing_temporaries] at lands
        refine ⟨place, lands, ?_⟩
        intro file
        rcases guard with allowed | absent
        · cases allowed
        · rw [contains_of_landing lands file] at absent
          cases absent

/-- After any steps, a guarded write that is committed meets a file at its destination exactly if
one has landed there since the write was staged; a guarded write that is staged and committed at
once meets none. A guarded run keeps every file that it finds, and of its two outputs the manifest
replaces the listing exactly if both land at one place. -/
theorem guarded_write_meets_file_iff (tree : FileTree) :
    (∀ (steps : List WriteStep) (name : String) (write : OpenWrite) (after : FileTree),
      let desk := (Desk.start tree).run steps
      (name, write) ∈ desk.writes → write.overwrite = false →
      write.staged.commit desk.tree = (.ok (), after) →
      ∃ place, desk.tree.landing write.staged.path = .ok place ∧
        (desk.tree.HoldsFile place ↔ place ∈ desk.landed.drop write.landings)) ∧
    (∀ (path : Path) (content : ByteArray) (after : FileTree),
      tree.writeFile path content false = (.ok (), after) →
      ∃ place, tree.landing path = .ok place ∧ ¬ tree.HoldsFile place) ∧
    ∀ settings : Settings, settings.output.overwrite = false →
      (∀ place, tree.HoldsFile place → (run tree settings).2.node? place = tree.node? place) ∧
      ∀ (analysis : Analysis) (first second : Place),
        WritesBoth tree settings analysis first second →
        run tree settings = (.ok analysis,
          (tree.put first (listingFile analysis)).put second (manifestFile analysis)) ∧
        ((tree.put first (listingFile analysis)).HoldsFile second ↔ second = first) := by
  refine ⟨?_, ?_, ?_⟩
  · intro steps name write after desk member guarded done
    rcases write.staged.commit_cases desk.tree with ⟨diagnostic, failed⟩ | ⟨place, _, lands, -⟩
    · rw [failed] at done
      cases done
    · have watched := Desk.watched_run tree steps (name, write) member
      exact ⟨place, lands, watched.meets_iff guarded place lands⟩
  · intro path content after done
    exact meets_none_of_write_file done
  · intro settings guarded
    constructor
    · intro place file
      exact guarded_run_keeps_files guarded file
    · intro analysis first second writes
      exact ⟨writes.run_eq, writes.meets_iff guarded⟩

/-! Two guarded writes that wait for one destination, and a run with one name for its outputs. -/

def waitingTree (temporaries : List Temporary) : FileTree :=
  { FileTree.empty [] with temporaries := temporaries }

theorem stage_waiting_tree (temporaries : List Temporary) (content : ByteArray) :
    stage (waitingTree temporaries) ⟨"out.mak"⟩ content false =
      .ok (⟨⟨"out.mak"⟩, (waitingTree temporaries).freshId⟩,
        waitingTree (temporaries ++ [⟨(waitingTree temporaries).freshId, [], content⟩])) := by
  have absent : (waitingTree temporaries).contains ⟨"out.mak"⟩ = false := by cbv
  have located : (waitingTree temporaries).locate (directory ⟨"out.mak"⟩) = .ok [] := by cbv
  simp only [stage, absent, located]
  rfl

theorem landing_waiting_tree (temporaries : List Temporary) :
    (waitingTree temporaries).landing ⟨"out.mak"⟩ = .ok ["out.mak"] := by
  cbv

def firstTemporary : Temporary := ⟨0, [], "first\n".toUTF8⟩

def secondTemporary : Temporary := ⟨1, [], "second\n".toUTF8⟩

def firstWrite : OpenWrite := ⟨⟨⟨"out.mak"⟩, 0⟩, false, 0⟩

def secondWrite : OpenWrite := ⟨⟨⟨"out.mak"⟩, 1⟩, false, 0⟩

def rivalSteps : List WriteStep :=
  [.stage "a" ⟨"out.mak"⟩ firstTemporary.content false,
    .stage "b" ⟨"out.mak"⟩ secondTemporary.content false, .commit "a"]

def rivalDesk : Desk where
  tree := (waitingTree [secondTemporary]).put ["out.mak"] (.file firstTemporary.content)
  writes := [("b", secondWrite)]
  landed := [["out.mak"]]

theorem run_rival_steps : (Desk.start (waitingTree [])).run rivalSteps = rivalDesk := by
  have first : (Desk.start (waitingTree [])).step
      (.stage "a" ⟨"out.mak"⟩ firstTemporary.content false) =
      ⟨waitingTree [firstTemporary], [("a", firstWrite)], []⟩ := by
    simp only [Desk.step, Desk.start, stage_waiting_tree]
    rfl
  have second : Desk.step ⟨waitingTree [firstTemporary], [("a", firstWrite)], []⟩
      (.stage "b" ⟨"out.mak"⟩ secondTemporary.content false) =
      ⟨waitingTree [firstTemporary, secondTemporary], [("b", secondWrite), ("a", firstWrite)],
        []⟩ := by
    simp only [Desk.step, stage_waiting_tree]
    rfl
  have landed : Desk.step ⟨waitingTree [firstTemporary, secondTemporary],
      [("b", secondWrite), ("a", firstWrite)], []⟩ (.commit "a") = rivalDesk := by
    have lands := landing_waiting_tree [firstTemporary, secondTemporary]
    have target : firstWrite.staged.target (waitingTree [firstTemporary, secondTemporary]) =
        .ok ["out.mak"] := lands
    have path : firstWrite.staged.path = ⟨"out.mak"⟩ := rfl
    have found : List.lookup "a" [("b", secondWrite), ("a", firstWrite)] = some firstWrite := rfl
    simp only [Desk.step, found, Desk.moved, commit, target, path, lands]
    rfl
  simp only [Desk.run, rivalSteps, List.foldl, first, second, landed]

theorem second_write_lands : rivalDesk.tree.landing ⟨"out.mak"⟩ = .ok ["out.mak"] := by
  have any (content : ByteArray) : ((waitingTree [secondTemporary]).put ["out.mak"]
      (.file content)).landing ⟨"out.mak"⟩ = .ok ["out.mak"] := by
    cbv
  exact any firstTemporary.content

theorem second_write_done :
    ∃ after, secondWrite.staged.commit rivalDesk.tree = (.ok (), after) := by
  have target : secondWrite.staged.target rivalDesk.tree = .ok ["out.mak"] := second_write_lands
  refine ⟨(waitingTree []).put ["out.mak"] (.file secondTemporary.content), ?_⟩
  simp only [commit, target]
  rfl

/-- A source alone, for which listing and manifest have one name. -/
def sharedTree : FileTree :=
  { FileTree.empty [] with nodes := [(["a.f90"], .file "module a\n".toUTF8)] }

def sharedSettings : Settings where
  discovery := { roots := [⟨"a.f90"⟩] }
  preprocess := { enabled := false }
  output := { listing := ⟨"out.mak"⟩, manifest := ⟨"out.mak"⟩, overwrite := false }

theorem shared_stages : Stages sharedTree sharedSettings .verbatim blockedAnalysis where
  discovered := by cbv
  read := rfl
  scanned := by cbv
  indexed := by decide +kernel
  assigned := rfl
  resolved := rfl
  acyclic := blocked_graph_acyclic
  listed := blocked_stages.listed

theorem shared_writes :
    WritesBoth sharedTree sharedSettings blockedAnalysis ["out.mak"] ["out.mak"] where
  analyzed := analyze_eq_ok.mpr ⟨.verbatim, shared_stages⟩
  automatic := rfl
  stageable := by
    intro output member
    have named : output.1 = ⟨"out.mak"⟩ := by
      rcases List.mem_cons.mp member with rfl | later
      · rfl
      · rw [List.mem_singleton.mp later]
        rfl
    rw [named]
    refine ⟨.inr ?_, [], ?_, rfl⟩
    · cbv
    · cbv
  lands := by cbv
  manifestLands := by cbv

/-- The second of two guarded writes replaces the first, and the manifest of a guarded run replaces
its listing. -/
theorem second_write_replaces_first :
    (∃ after, secondWrite.overwrite = false ∧
      secondWrite.staged.commit rivalDesk.tree = (.ok (), after) ∧
      rivalDesk.tree.landing secondWrite.staged.path = .ok ["out.mak"] ∧
      rivalDesk.tree.HoldsFile ["out.mak"]) ∧
    sharedSettings.output.overwrite = false ∧
    (sharedTree.put ["out.mak"] (listingFile blockedAnalysis)).HoldsFile ["out.mak"] ∧
    (run sharedTree sharedSettings).2 =
      (sharedTree.put ["out.mak"] (listingFile blockedAnalysis)).put ["out.mak"]
        (manifestFile blockedAnalysis) := by
  obtain ⟨guarded, -⟩ := guarded_write_meets_file_iff (waitingTree [])
  obtain ⟨-, -, guardedRun⟩ := guarded_write_meets_file_iff sharedTree
  constructor
  · obtain ⟨after, done⟩ := second_write_done
    have met := guarded rivalSteps "b" secondWrite after
    rw [run_rival_steps] at met
    obtain ⟨place, lands, meets⟩ := met (List.mem_singleton_self _) rfl done
    have same : ["out.mak"] = place := Except.ok.inj (second_write_lands.symm.trans lands)
    subst same
    exact ⟨after, rfl, done, lands, meets.mpr (List.mem_singleton_self _)⟩
  · obtain ⟨outcome, meets⟩ := (guardedRun sharedSettings rfl).2 _ _ _ shared_writes
    exact ⟨rfl, meets.mpr rfl, congrArg Prod.snd outcome⟩

end FortranDeps.Project

import FortranDeps.Proofs.Files.Desk
import FortranDeps.Proofs.Files.Rereading

/-!
The custody of staged writes. The steps taken at a desk and the answers to them say which drafts are
waiting, without a look at the tree. The desk keeps one temporary file for each of these, with the
whole content, and none for any other write. A step changes a file only where a draft arrives.
-/

namespace FortranDeps

open FileTree

/-- What a file is to hold, and where it is to go. -/
structure Draft where
  path : Path
  content : ByteArray

def Pending.draft (pending : Pending) : Draft := ⟨pending.path, pending.temporary.content⟩

namespace WriteStep

/-- What remains of the entries under names when a step has taken its own away. -/
def remaining {Entry : Type} (entries : List (String × Entry)) : WriteStep → List (String × Entry)
  | .commit name | .drop name => entries.filter (·.1 != name)
  | .stage .. | .write .. => entries

/-- The drafts that wait under their names after a step. A draft waits from when it is staged
without an error until it is committed or dropped, or another one takes its name. -/
def recorded (waiting : List (String × Draft)) (step : WriteStep)
    (answer : Option (Except Diagnostic Unit)) : List (String × Draft) :=
  match step, answer with
  | .stage name path content _, some (.ok ()) =>
      waiting.filter (·.1 != name) ++ [(name, ⟨path, content⟩)]
  | step, _ => step.remaining waiting

/-- The draft that a step moves to its path if it succeeds. -/
def delivered? (waiting : List (String × Draft)) : WriteStep → Option Draft
  | .commit name => waiting.lookup name
  | .write path content _ => some ⟨path, content⟩
  | .stage .. | .drop _ => none

end WriteStep

namespace Desk

/-- What a step answers. Dropping a write answers nothing, and neither does a name without one. -/
def answer (desk : Desk) : WriteStep → Option (Except Diagnostic Unit)
  | .stage _ path content overwrite =>
      some ((StagedWrite.stage desk.tree path content overwrite).map fun _ => ())
  | .commit name =>
      (desk.writes.lookup name).map fun write => (write.staged.commit desk.tree).1
  | .drop _ => none
  | .write path content overwrite => some (desk.tree.writeFile path content overwrite).1

/-- The drafts that wait after some steps, by the answers to them. -/
def waiting (desk : Desk) (before : List (String × Draft)) : List WriteStep → List (String × Draft)
  | [] => before
  | step :: rest => (desk.step step).waiting (step.recorded before (desk.answer step)) rest

end Desk

/-- The temporary files are those of a tree and one of its own for each write that is held, and the
writes are the ones that are held. -/
structure Custody (tree : FileTree) (held : List (String × Pending))
    (temporaries : List Temporary) (writes : List (String × OpenWrite)) : Prop where
  temporaries : temporaries = tree.temporaries ++ held.map (·.2.temporary)
  names : (held.map (·.1)).Nodup
  apart : tree.Apart (held.map (·.2))
  writes : ∀ name, (writes.lookup name).map (·.staged) = (held.lookup name).map Pending.staged

namespace Custody

variable {tree : FileTree} {held : List (String × Pending)} {temporaries : List Temporary}
  {writes : List (String × OpenWrite)} {name : String} {pending : Pending}

theorem start (tree : FileTree) : Custody tree [] tree.temporaries [] where
  temporaries := by simp
  names := List.nodup_nil
  apart := Apart.nil tree
  writes := fun _ => rfl

variable (custody : Custody tree held temporaries writes)

include custody

theorem exists_pending {write : OpenWrite} (found : writes.lookup name = some write) :
    ∃ pending, held.lookup name = some pending ∧ write.staged = pending.staged := by
  have same := custody.writes name
  rw [found] at same
  obtain ⟨pending, held, staged⟩ := Option.map_eq_some_iff.mp same.symm
  exact ⟨pending, held, staged.symm⟩

theorem lookup_eq_none (missing : writes.lookup name = none) : held.lookup name = none := by
  have same := custody.writes name
  rw [missing] at same
  exact Option.map_eq_none_iff.mp same.symm

/-- A temporary file belongs to the write under one name only. -/
theorem id_eq_iff (found : held.lookup name = some pending) {entry : String × Pending}
    (member : entry ∈ held) : entry.2.temporary.id = pending.temporary.id ↔ entry.1 = name := by
  obtain ⟨before, after, rfl, -⟩ := List.lookup_eq_some_iff.mp found
  have own : (name, pending) ∈ before ++ (name, pending) :: after := by simp
  have ids := custody.apart.nodup
  rw [List.map_map] at ids
  constructor
  · intro same
    exact congrArg Prod.fst (List.inj_on_of_nodup_map ids member own same)
  · intro same
    have entries := List.inj_on_of_nodup_map custody.names member own same
    rw [entries]

theorem id_ne_of_tree (found : held.lookup name = some pending) {temporary : Temporary}
    (member : temporary ∈ tree.temporaries) : temporary.id ≠ pending.temporary.id := by
  obtain ⟨before, after, rfl, -⟩ := List.lookup_eq_some_iff.mp found
  exact custody.apart.fresh pending (by simp) temporary member

theorem find_temporary (found : held.lookup name = some pending) :
    temporaries.find? (·.id == pending.temporary.id) = some pending.temporary := by
  have others : tree.temporaries.find? (·.id == pending.temporary.id) = none := by
    rw [List.find?_eq_none]
    intro temporary member
    simpa using custody.id_ne_of_tree found member
  have known : ∀ entry ∈ held, entry.2.temporary.id = pending.temporary.id ↔ entry.1 = name :=
    fun entry member => custody.id_eq_iff found member
  obtain ⟨before, after, rfl, earlier⟩ := List.lookup_eq_some_iff.mp found
  have ahead : (before.map (·.2.temporary)).find? (·.id == pending.temporary.id) = none := by
    rw [List.find?_eq_none]
    intro temporary member
    obtain ⟨entry, inside, rfl⟩ := List.mem_map.mp member
    have differ : name ≠ entry.1 := bne_iff_ne.mp (earlier entry inside)
    simpa [known entry (List.mem_append_left _ inside)] using differ.symm
  rw [custody.temporaries, List.find?_append, others, List.map_append, List.find?_append, ahead]
  simp

/-- A write that is committed or dropped takes its temporary file along, and no other. -/
theorem remove (found : held.lookup name = some pending) :
    Custody tree (held.filter (·.1 != name))
      (temporaries.filter (·.id != pending.temporary.id)) (writes.filter (·.1 != name)) where
  temporaries := by
    have others : tree.temporaries.filter (·.id != pending.temporary.id) = tree.temporaries := by
      rw [List.filter_eq_self]
      intro temporary member
      simpa using custody.id_ne_of_tree found member
    have own : (held.map (·.2.temporary)).filter (·.id != pending.temporary.id) =
        (held.filter (·.1 != name)).map (·.2.temporary) := by
      rw [List.filter_map]
      apply congrArg (List.map _)
      apply List.filter_congr
      intro entry member
      have known := custody.id_eq_iff found member
      simp [bne, known]
    rw [custody.temporaries, List.filter_append, others, own]
  names := custody.names.sublist (List.filter_sublist.map _)
  apart := by
    have fewer : ((held.filter (·.1 != name)).map (·.2)).Sublist (held.map (·.2)) :=
      List.filter_sublist.map _
    refine ⟨custody.apart.nodup.sublist (fewer.map _), ?_⟩
    intro write member
    exact custody.apart.fresh write (fewer.subset member)
  writes := by
    intro other
    rw [lookup_filter_ne, lookup_filter_ne]
    split
    · rfl
    · exact custody.writes other

/-- A write is added under a new name, with a temporary file that is not among the others. -/
theorem add (unused : held.lookup name = none) (write : OpenWrite)
    (staged : write.staged = pending.staged)
    (fresh : ∀ temporary ∈ temporaries, temporary.id ≠ pending.temporary.id) :
    Custody tree (held ++ [(name, pending)]) (temporaries ++ [pending.temporary])
      ((name, write) :: writes) where
  temporaries := by
    rw [custody.temporaries]
    simp
  names := by
    have others := List.lookup_eq_none_iff.mp unused
    rw [List.map_append, List.nodup_append]
    refine ⟨custody.names, by simp, ?_⟩
    intro first member last own
    obtain ⟨entry, inside, rfl⟩ := List.mem_map.mp member
    rw [List.map_singleton, List.mem_singleton] at own
    rw [own]
    exact (bne_iff_ne.mp (others entry inside)).symm
  apart := by
    constructor
    · rw [List.map_append, List.map_append, List.nodup_append]
      refine ⟨custody.apart.nodup, by simp, ?_⟩
      intro first member last own
      obtain ⟨write, inside, rfl⟩ := List.mem_map.mp member
      obtain ⟨entry, among, rfl⟩ := List.mem_map.mp inside
      have older : entry.2.temporary ∈ temporaries := by
        rw [custody.temporaries]
        exact List.mem_append_right _ (List.mem_map_of_mem among)
      rw [List.map_singleton, List.map_singleton, List.mem_singleton] at own
      rw [own]
      exact fresh _ older
    · intro write member temporary old
      rw [List.map_append, List.map_singleton, List.mem_append, List.mem_singleton] at member
      rcases member with inside | rfl
      · exact custody.apart.fresh write inside temporary old
      · apply fresh temporary
        rw [custody.temporaries]
        exact List.mem_append_left _ old
  writes := by
    intro other
    have same := custody.writes other
    rw [List.lookup_append, List.lookup_cons, List.lookup_cons]
    by_cases own : other = name
    · rw [own, unused, beq_self_eq_true]
      exact congrArg some staged
    · rw [beq_false_of_ne own]
      simpa using same

end Custody

/-! Writes that are held and the drafts that wait. -/

def drafts (held : List (String × Pending)) : List (String × Draft) :=
  held.map fun entry => (entry.1, entry.2.draft)

section Drafts

variable {held : List (String × Pending)} {name : String}

theorem drafts_filter :
    (drafts held).filter (·.1 != name) = drafts (held.filter (·.1 != name)) := by
  unfold drafts
  rw [List.filter_map]
  rfl

theorem lookup_drafts : (drafts held).lookup name = (held.lookup name).map Pending.draft := by
  induction held with
  | nil => rfl
  | cons first rest induction =>
      unfold drafts at induction ⊢
      rw [List.map_cons, List.lookup_cons, List.lookup_cons, induction]
      cases name == first.1 <;> rfl

theorem filter_eq_self_of_unused {Entry : Type} {entries : List (String × Entry)}
    (unused : entries.lookup name = none) : entries.filter (·.1 != name) = entries := by
  rw [List.filter_eq_self]
  intro entry member
  have differ := List.lookup_eq_none_iff.mp unused entry member
  rwa [bne_comm] at differ

end Drafts

/-! What a step does to the writes that are held, and to the files. -/

/-- A step at a desk that holds writes. The writes that are held afterwards are those that wait by
the answer, a file changes only where a draft arrives, and a step that fails leaves nothing
behind. -/
structure Desk.Handles (desk : Desk) (tree : FileTree) (held : List (String × Pending))
    (step : WriteStep) : Prop where
  custody : ∃ later, Custody tree later (desk.step step).tree.temporaries (desk.step step).writes ∧
    drafts later = step.recorded (drafts held) (desk.answer step)
  arrives : ∀ draft, step.delivered? (drafts held) = some draft →
    desk.answer step = some (.ok ()) →
    ∃ place, desk.tree.landing draft.path = .ok place ∧
      ∀ other, (desk.step step).tree.node? other =
        if other = place then some (.file draft.content) else desk.tree.node? other
  stays : step.delivered? (drafts held) = none ∨ desk.answer step ≠ some (.ok ()) →
    ∀ place, (desk.step step).tree.node? place = desk.tree.node? place
  fails : ∀ diagnostic, desk.answer step = some (.error diagnostic) →
    (desk.step step).tree = { desk.tree with
      temporaries := tree.temporaries ++ (step.remaining held).map (·.2.temporary) }

namespace Desk

variable {desk : Desk} {tree : FileTree} {held : List (String × Pending)} {step : WriteStep}

/-! The two ways a step is handled: a draft arrives, or the files stay as they are. -/

theorem handles_arrival {draft : Draft} {place : Place} {emptied : FileTree}
    (custody : ∃ later,
      Custody tree later (desk.step step).tree.temporaries (desk.step step).writes ∧
        drafts later = step.recorded (drafts held) (desk.answer step))
    (delivered : step.delivered? (drafts held) = some draft)
    (answered : desk.answer step = some (.ok ()))
    (lands : desk.tree.landing draft.path = .ok place)
    (same : emptied.node? = desk.tree.node?)
    (after : (desk.step step).tree = emptied.put place (.file draft.content)) :
    desk.Handles tree held step where
  custody := custody
  arrives other again _ := by
    cases Option.some.inj (delivered.symm.trans again)
    have free : emptied.isDirectory place = false := by
      have accessible := is_directory_of_landing lands
      unfold isDirectory at accessible ⊢
      rwa [same]
    refine ⟨place, lands, ?_⟩
    intro there
    rw [after, node?_put free, same]
  stays reason := by
    rcases reason with missing | refused
    · rw [delivered] at missing
      cases missing
    · exact absurd answered refused
  fails diagnostic failed := by
    rw [answered] at failed
    cases failed

theorem handles_quietly {temporaries : List Temporary}
    (custody : ∃ later,
      Custody tree later (desk.step step).tree.temporaries (desk.step step).writes ∧
        drafts later = step.recorded (drafts held) (desk.answer step))
    (quiet : step.delivered? (drafts held) = none ∨ desk.answer step ≠ some (.ok ()))
    (after : (desk.step step).tree = { desk.tree with temporaries := temporaries })
    (left : ∀ diagnostic, desk.answer step = some (.error diagnostic) →
      temporaries = tree.temporaries ++ (step.remaining held).map (·.2.temporary)) :
    desk.Handles tree held step where
  custody := custody
  arrives draft delivered answered := by
    rcases quiet with missing | refused
    · rw [missing] at delivered
      cases delivered
    · exact absurd answered refused
  stays _ place := by
    rw [after]
    rfl
  fails diagnostic failed := by rw [after, left diagnostic failed]

/-- A step that is refused, or that names no write, leaves everything as it was. -/
theorem handles_nothing (custody : Custody tree held desk.tree.temporaries desk.writes)
    (same : desk.step step = desk)
    (waiting : step.recorded (drafts held) (desk.answer step) = drafts held)
    (refused : desk.answer step ≠ some (.ok ())) (remain : step.remaining held = held) :
    desk.Handles tree held step := by
  apply handles_quietly
  · rw [same]
    exact ⟨held, custody, waiting.symm⟩
  · exact .inr refused
  · rw [same]
  · intro _ _
    rw [remain]
    exact custody.temporaries

theorem handles_drop (custody : Custody tree held desk.tree.temporaries desk.writes)
    (name : String) : desk.Handles tree held (.drop name) := by
  cases found : desk.writes.lookup name with
  | none =>
      have kept := filter_eq_self_of_unused (custody.lookup_eq_none found)
      apply handles_nothing custody
      · simp [Desk.step, found]
      · simp [WriteStep.recorded, WriteStep.remaining, drafts_filter, kept]
      · simp [Desk.answer]
      · exact kept
  | some write =>
      obtain ⟨pending, holds, staged⟩ := custody.exists_pending found
      have removed := custody.remove holds
      have stepped : desk.step (.drop name) =
          { desk with tree := pending.staged.drop desk.tree, writes := desk.without name } := by
        simp only [Desk.step, found, staged]
      apply handles_quietly
      · rw [stepped]
        exact ⟨_, removed, drafts_filter.symm⟩
      · exact .inl rfl
      · rw [stepped]
        rfl
      · intro diagnostic failed
        cases failed

/-- A held write is committed to where its path leads. -/
theorem commit_pending (custody : Custody tree held desk.tree.temporaries desk.writes)
    {name : String} {pending : Pending} (found : held.lookup name = some pending) :
    pending.staged.commit desk.tree =
      match desk.tree.landing pending.path with
      | .error fault =>
          (.error (.io pending.path fault.message), pending.staged.drop desk.tree)
      | .ok place =>
          (.ok (), (pending.staged.drop desk.tree).put place
            (.file pending.temporary.content)) := by
  have target : pending.staged.target desk.tree = desk.tree.landing pending.path := rfl
  have own : desk.tree.temporaries.find? (·.id == pending.staged.temporary) =
      some pending.temporary := custody.find_temporary found
  rw [StagedWrite.commit, target, own]
  rfl

theorem handles_commit (custody : Custody tree held desk.tree.temporaries desk.writes)
    (name : String) : desk.Handles tree held (.commit name) := by
  cases found : desk.writes.lookup name with
  | none =>
      have kept := filter_eq_self_of_unused (custody.lookup_eq_none found)
      apply handles_nothing custody
      · simp [Desk.step, found]
      · simp [WriteStep.recorded, WriteStep.remaining, drafts_filter, kept]
      · simp [Desk.answer, found]
      · exact kept
  | some write =>
      obtain ⟨pending, holds, staged⟩ := custody.exists_pending found
      have removed := custody.remove holds
      have committed := commit_pending custody holds
      have answered : desk.answer (.commit name) = some (pending.staged.commit desk.tree).1 := by
        simp [Desk.answer, found, staged]
      have after : (desk.step (.commit name)).tree = (pending.staged.commit desk.tree).2 := by
        simp only [Desk.step, found, staged, Desk.moved]
      have writes : (desk.step (.commit name)).writes = desk.without name := by
        simp only [Desk.step, found]
      have recorded : drafts (held.filter (·.1 != name)) =
          (WriteStep.commit name).recorded (drafts held) (desk.answer (.commit name)) :=
        drafts_filter.symm
      -- The temporary file is gone whether or not the draft arrives.
      cases lands : desk.tree.landing pending.path with
      | error fault =>
          rw [lands] at committed
          rw [committed] at answered after
          apply handles_quietly
          · refine ⟨_, ?_, recorded⟩
            rw [after, writes]
            exact removed
          · rw [answered]
            exact .inr (by simp)
          · exact after
          · intro _ _
            exact removed.temporaries
      | ok place =>
          rw [lands] at committed
          rw [committed] at answered after
          have waits : (WriteStep.commit name).delivered? (drafts held) = some pending.draft := by
            rw [WriteStep.delivered?, lookup_drafts, holds]
            rfl
          have same : (pending.staged.drop desk.tree).node? = desk.tree.node? := rfl
          apply handles_arrival _ waits answered lands same after
          refine ⟨_, ?_, recorded⟩
          rw [after, writes]
          exact removed

/-- A write is staged beside the older one of its name, which is dropped then. -/
theorem step_stage (custody : Custody tree held desk.tree.temporaries desk.writes)
    (name : String) (pending : Pending) {content : ByteArray} {overwrite : Bool}
    (staging : StagedWrite.stage desk.tree pending.path content overwrite =
      .ok (pending.staged, desk.tree.awaiting [pending]))
    (fresh : pending.temporary.id = desk.tree.freshId) :
    ∃ temporaries writes, desk.step (.stage name pending.path content overwrite) =
        { desk with tree := { desk.tree with temporaries := temporaries }, writes := writes } ∧
      Custody tree (held.filter (·.1 != name) ++ [(name, pending)]) temporaries writes := by
  have others : ∀ temporary ∈ desk.tree.temporaries, temporary.id ≠ pending.temporary.id := by
    intro temporary member
    rw [fresh]
    exact Nat.ne_of_lt (id_lt_fresh_id member)
  let write : OpenWrite := ⟨pending.staged, overwrite, desk.landed.length⟩
  cases found : desk.writes.lookup name with
  | none =>
      have unused := custody.lookup_eq_none found
      have added := custody.add unused write rfl others
      rw [filter_eq_self_of_unused unused]
      refine ⟨_, _, ?_, added⟩
      simp only [Desk.step, staging, found]
      rw [Desk.without, filter_eq_self_of_unused found]
      rfl
  | some older =>
      obtain ⟨dropped, holds, staged⟩ := custody.exists_pending found
      have unused : (held.filter (·.1 != name)).lookup name = none := by
        rw [lookup_filter_ne, if_pos rfl]
      have member : dropped.temporary ∈ desk.tree.temporaries :=
        List.mem_of_find?_eq_some (custody.find_temporary holds)
      have new : pending.temporary.id ≠ dropped.temporary.id := (others _ member).symm
      have added := (custody.remove holds).add unused write rfl
        fun temporary member => others temporary (List.mem_filter.mp member).1
      have left : older.staged.drop (desk.tree.awaiting [pending]) =
          { desk.tree with
            temporaries := desk.tree.temporaries.filter (·.id != dropped.temporary.id) ++
              [pending.temporary] } := by
        simp [staged, StagedWrite.drop, awaiting, Pending.staged, List.filter_append, new]
      refine ⟨_, _, ?_, added⟩
      simp only [Desk.step, staging, found]
      rw [left]
      rfl

theorem handles_stage (custody : Custody tree held desk.tree.temporaries desk.writes)
    (name : String) (path : Path) (content : ByteArray) (overwrite : Bool) :
    desk.Handles tree held (.stage name path content overwrite) := by
  by_cases stageable : StagedWrite.Stageable desk.tree overwrite path
  · obtain ⟨place, staging⟩ := StagedWrite.stage_of_stageable stageable content
    obtain ⟨temporaries, writes, stepped, holds⟩ := step_stage custody name
      ⟨path, desk.tree.freshId, place, content⟩ staging rfl
    have answered : desk.answer (.stage name path content overwrite) = some (.ok ()) := by
      simp [Desk.answer, staging, Except.map]
    apply handles_quietly
    · rw [stepped, answered]
      refine ⟨_, holds, ?_⟩
      rw [WriteStep.recorded, drafts_filter]
      simp [drafts, Pending.draft]
    · exact .inl rfl
    · rw [stepped]
    · intro diagnostic failed
      rw [answered] at failed
      cases failed
  · obtain ⟨diagnostic, refused⟩ := StagedWrite.stage_of_not_stageable stageable content
    have answered : desk.answer (.stage name path content overwrite) =
        some (.error diagnostic) := by
      simp [Desk.answer, refused, Except.map]
    apply handles_nothing custody
    · simp only [Desk.step, refused]
    · rw [answered]
      rfl
    · rw [answered]
      simp
    · rfl

theorem handles_write (custody : Custody tree held desk.tree.temporaries desk.writes)
    (path : Path) (content : ByteArray) (overwrite : Bool) :
    desk.Handles tree held (.write path content overwrite) := by
  have kept (diagnostic : Diagnostic)
      (failed : desk.tree.writeFile path content overwrite = (.error diagnostic, desk.tree)) :
      desk.Handles tree held (.write path content overwrite) := by
    have answered : desk.answer (.write path content overwrite) = some (.error diagnostic) := by
      simp [Desk.answer, failed]
    apply handles_nothing custody
    · simp [Desk.step, Desk.moved, failed]
    · rw [answered]
      rfl
    · rw [answered]
      simp
    · rfl
  by_cases stageable : StagedWrite.Stageable desk.tree overwrite path
  · have written := write_file_of_stageable stageable content
    cases lands : desk.tree.landing path with
    | error fault =>
        rw [lands] at written
        exact kept _ written
    | ok place =>
        rw [lands] at written
        have answered : desk.answer (.write path content overwrite) = some (.ok ()) := by
          simp [Desk.answer, written]
        have after : (desk.step (.write path content overwrite)).tree =
            desk.tree.put place (.file content) := by
          simp [Desk.step, Desk.moved, written]
        have delivers : (WriteStep.write path content overwrite).delivered? (drafts held) =
            some ⟨path, content⟩ := rfl
        apply handles_arrival _ delivers answered lands (Eq.refl desk.tree.node?) after
        refine ⟨held, ?_, ?_⟩
        · rw [after]
          exact custody
        · rw [answered]
          rfl
  · obtain ⟨diagnostic, refused⟩ := StagedWrite.stage_of_not_stageable stageable content
    apply kept diagnostic
    simp [writeFile, refused]

/-- What a step does at a desk that holds writes. -/
theorem handles_step (custody : Custody tree held desk.tree.temporaries desk.writes)
    (step : WriteStep) : desk.Handles tree held step := by
  cases step with
  | stage name path content overwrite => exact handles_stage custody name path content overwrite
  | commit name => exact handles_commit custody name
  | drop name => exact handles_drop custody name
  | write path content overwrite => exact handles_write custody path content overwrite

theorem custody_run (custody : Custody tree held desk.tree.temporaries desk.writes)
    (steps : List WriteStep) :
    ∃ later, Custody tree later (desk.run steps).tree.temporaries (desk.run steps).writes ∧
      drafts later = desk.waiting (drafts held) steps := by
  induction steps generalizing desk held with
  | nil => exact ⟨held, custody, rfl⟩
  | cons step rest induction =>
      obtain ⟨next, kept, recorded⟩ := (handles_step custody step).custody
      obtain ⟨later, holds, waits⟩ := induction kept
      rw [recorded] at waits
      exact ⟨later, holds, waits⟩

end Desk

/-- After any steps from any tree, the temporary files are those of the tree and one for each draft
that waits by the answers, with its whole content. The next step changes no file but the one at
which a draft arrives that it answers for, which then has the whole content, and if it fails it
leaves all files as they were and no temporary file of its own. -/
theorem staged_writes_in_custody (tree : FileTree) (steps : List WriteStep) :
    let desk := (Desk.start tree).run steps
    ∃ held, Custody tree held desk.tree.temporaries desk.writes ∧
      drafts held = (Desk.start tree).waiting [] steps ∧
      ∀ step, desk.Handles tree held step := by
  intro desk
  have nothing : Custody tree [] (Desk.start tree).tree.temporaries (Desk.start tree).writes :=
    Custody.start tree
  obtain ⟨held, custody, waits⟩ := Desk.custody_run nothing steps
  refine ⟨held, custody, waits, ?_⟩
  intro step
  exact Desk.handles_step custody step

end FortranDeps

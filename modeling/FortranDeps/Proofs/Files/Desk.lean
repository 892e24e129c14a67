import FortranDeps.Proofs.Files.Landing

/-!
Writes in any order. A desk keeps staged writes under names until they are committed or dropped,
and takes down where files have landed. The guard against replacing a file is asked when a write is
staged, so at its commit a guarded write meets a file exactly if one has landed at its place since.
-/

namespace FortranDeps

inductive WriteStep where
  | stage (name : String) (path : Path) (content : ByteArray) (overwrite : Bool)
  | commit (name : String)
  | drop (name : String)
  /-- Stages a write and commits it at once. -/
  | write (path : Path) (content : ByteArray) (overwrite : Bool)

/-- A staged write with the number of files that had landed before it was staged. -/
structure OpenWrite where
  staged : StagedWrite
  overwrite : Bool
  landings : Nat

structure Desk where
  tree : FileTree
  writes : List (String × OpenWrite)
  landed : List Place

namespace Desk

def start (tree : FileTree) : Desk := ⟨tree, [], []⟩

def without (desk : Desk) (name : String) : List (String × OpenWrite) :=
  desk.writes.filter (·.1 != name)

/-- The desk after a file was moved to a path, or failed to be. -/
def moved (desk : Desk) (path : Path) (outcome : Except Diagnostic Unit × FileTree) : Desk :=
  { desk with
    tree := outcome.2
    landed := match outcome.1, desk.tree.landing path with
      | .ok _, .ok place => desk.landed ++ [place]
      | _, _ => desk.landed }

/-- A name is free for a new write: the older write under it is dropped. -/
def step (desk : Desk) : WriteStep → Desk
  | .stage name path content overwrite =>
      match StagedWrite.stage desk.tree path content overwrite with
      | .error _ => desk
      | .ok (staged, tree) =>
          { desk with
            tree := match desk.writes.lookup name with
              | some older => older.staged.drop tree
              | none => tree
            writes := (name, ⟨staged, overwrite, desk.landed.length⟩) :: desk.without name }
  | .commit name =>
      match desk.writes.lookup name with
      | none => desk
      | some write =>
          { desk.moved write.staged.path (write.staged.commit desk.tree) with
            writes := desk.without name }
  | .drop name =>
      match desk.writes.lookup name with
      | none => desk
      | some write =>
          { desk with tree := write.staged.drop desk.tree, writes := desk.without name }
  | .write path content overwrite =>
      desk.moved path (desk.tree.writeFile path content overwrite)

def run (desk : Desk) (steps : List WriteStep) : Desk := steps.foldl step desk

end Desk

/-! What a step does to the tree. -/

namespace FileTree

variable (tree : FileTree) (temporaries : List Temporary)

theorem landing_temporaries (path : Path) :
    landing { tree with temporaries := temporaries } path = tree.landing path := by
  have nodes : node? { tree with temporaries := temporaries } = tree.node? := rfl
  have ways := follow_congr nodes
  unfold landing destination
  simp only [ways]
  rfl

/-- How the tree and the list of landings change: temporary files come and go, or a file lands. -/
inductive Change (tree : FileTree) (landed : List Place) : FileTree → List Place → Prop where
  | staging (temporaries : List Temporary) :
      Change tree landed { tree with temporaries := temporaries } landed
  | landing {path : Path} {place : Place} (temporaries : List Temporary) (content : ByteArray)
      (lands : tree.landing path = .ok place) :
      Change tree landed (put { tree with temporaries := temporaries } place (.file content))
        (landed ++ [place])

end FileTree

namespace StagedWrite

theorem stage_eq_ok {tree after : FileTree} {path : Path} {content : ByteArray} {overwrite : Bool}
    {staged : StagedWrite} (done : stage tree path content overwrite = .ok (staged, after)) :
    staged.path = path ∧ (overwrite = true ∨ tree.contains path = false) ∧
      ∃ temporaries, after = { tree with temporaries := temporaries } := by
  by_cases stageable : Stageable tree overwrite path
  · obtain ⟨place, same⟩ := stage_of_stageable stageable content
    rw [same] at done
    cases done
    exact ⟨rfl, stageable.1, _, rfl⟩
  · obtain ⟨diagnostic, refused⟩ := stage_of_not_stageable stageable content
    rw [refused] at done
    cases done

theorem commit_cases (staged : StagedWrite) (tree : FileTree) :
    (∃ diagnostic, staged.commit tree = (.error diagnostic, staged.drop tree)) ∨
    ∃ place content, tree.landing staged.path = .ok place ∧
      staged.commit tree = (.ok (), (staged.drop tree).put place (.file content)) := by
  have target : staged.target tree = tree.landing staged.path := rfl
  unfold commit
  rw [target]
  cases tree.temporaries.find? (·.id == staged.temporary) with
  | none => exact .inl ⟨_, rfl⟩
  | some temporary =>
      cases tree.landing staged.path with
      | error fault => exact .inl ⟨_, rfl⟩
      | ok place => exact .inr ⟨place, temporary.content, rfl, rfl⟩

end StagedWrite

namespace Desk

open FileTree

variable (desk : Desk)

theorem change_moved {path : Path} {outcome : Except Diagnostic Unit × FileTree}
    (moves : (∃ diagnostic temporaries,
        outcome = (.error diagnostic, { desk.tree with temporaries := temporaries })) ∨
      ∃ place content temporaries, desk.tree.landing path = .ok place ∧
        outcome = (.ok (), put { desk.tree with temporaries := temporaries } place
          (.file content))) :
    Change desk.tree desk.landed (desk.moved path outcome).tree
      (desk.moved path outcome).landed := by
  rcases moves with ⟨diagnostic, temporaries, rfl⟩ | ⟨place, content, temporaries, lands, rfl⟩
  · exact .staging temporaries
  · have noted : (desk.moved path (.ok (), put { desk.tree with temporaries := temporaries } place
        (.file content))).landed = desk.landed ++ [place] := by
      simp only [moved, lands]
    rw [noted]
    exact .landing temporaries content lands

theorem change_commit (staged : StagedWrite) :
    Change desk.tree desk.landed (desk.moved staged.path (staged.commit desk.tree)).tree
      (desk.moved staged.path (staged.commit desk.tree)).landed := by
  apply change_moved
  rcases staged.commit_cases desk.tree with ⟨diagnostic, failed⟩ | ⟨place, content, lands, done⟩
  · exact .inl ⟨diagnostic, _, failed⟩
  · exact .inr ⟨place, content, _, lands, done⟩

theorem change_write (path : Path) (content : ByteArray) (overwrite : Bool) :
    Change desk.tree desk.landed
      (desk.moved path (desk.tree.writeFile path content overwrite)).tree
      (desk.moved path (desk.tree.writeFile path content overwrite)).landed := by
  apply change_moved
  unfold FileTree.writeFile
  cases staging : StagedWrite.stage desk.tree path content overwrite with
  | error diagnostic => exact .inl ⟨diagnostic, desk.tree.temporaries, rfl⟩
  | ok result =>
      obtain ⟨staged, after⟩ := result
      obtain ⟨rfl, -, temporaries, rfl⟩ := StagedWrite.stage_eq_ok staging
      rcases staged.commit_cases { desk.tree with temporaries := temporaries } with
        ⟨diagnostic, failed⟩ | ⟨place, content, lands, done⟩
      · exact .inl ⟨diagnostic, _, failed⟩
      · rw [landing_temporaries] at lands
        exact .inr ⟨place, content, _, lands, done⟩

/-- What a step can do: the tree changes in one of the two ways, and a write is new on the desk only
if it has just been staged past the guard. -/
theorem step_changes (step : WriteStep) :
    Change desk.tree desk.landed (desk.step step).tree (desk.step step).landed ∧
    ∀ entry ∈ (desk.step step).writes, entry ∈ desk.writes ∨
      (entry.2.landings = desk.landed.length ∧
        (entry.2.overwrite = true ∨ desk.tree.contains entry.2.staged.path = false)) := by
  have same : Change desk.tree desk.landed desk.tree desk.landed :=
    .staging desk.tree.temporaries
  have fewer (name : String) : ∀ entry ∈ desk.without name, entry ∈ desk.writes :=
    fun entry member => (List.mem_filter.mp member).1
  cases step with
  | stage name path content overwrite =>
      cases staging : StagedWrite.stage desk.tree path content overwrite with
      | error diagnostic =>
          simp only [Desk.step, staging]
          exact ⟨same, fun entry member => .inl member⟩
      | ok result =>
          obtain ⟨staged, after⟩ := result
          obtain ⟨rfl, guard, temporaries, rfl⟩ := StagedWrite.stage_eq_ok staging
          -- The write is staged before the older one is dropped, and both touch temporaries only.
          obtain ⟨left, dropped⟩ : ∃ left, (match desk.writes.lookup name with
              | some older => older.staged.drop { desk.tree with temporaries := temporaries }
              | none => { desk.tree with temporaries := temporaries }) =
                { desk.tree with temporaries := left } := by
            split
            · exact ⟨_, rfl⟩
            · exact ⟨temporaries, rfl⟩
          simp only [Desk.step, staging]
          rw [dropped]
          refine ⟨.staging left, ?_⟩
          intro entry member
          rcases List.mem_cons.mp member with rfl | older
          · exact .inr ⟨rfl, guard⟩
          · exact .inl (fewer name entry older)
  | commit name =>
      cases found : desk.writes.lookup name with
      | none =>
          simp only [Desk.step, found]
          exact ⟨same, fun entry member => .inl member⟩
      | some write =>
          simp only [Desk.step, found]
          refine ⟨desk.change_commit write.staged, ?_⟩
          exact fun entry member => .inl (fewer name entry member)
  | drop name =>
      cases found : desk.writes.lookup name with
      | none =>
          simp only [Desk.step, found]
          exact ⟨same, fun entry member => .inl member⟩
      | some write =>
          simp only [Desk.step, found]
          exact ⟨.staging _, fun entry member => .inl (fewer name entry member)⟩
  | write path content overwrite =>
      exact ⟨desk.change_write path content overwrite, fun entry member => .inl member⟩

end Desk

/-! Writes that wait on a desk. -/

namespace OpenWrite

open FileTree

/-- A guarded write meets a file exactly if one has landed at its place since it was staged. -/
structure Watched (write : OpenWrite) (tree : FileTree) (landed : List Place) : Prop where
  staged : write.landings ≤ landed.length
  meets_iff : write.overwrite = false → ∀ place, tree.landing write.staged.path = .ok place →
    (tree.HoldsFile place ↔ place ∈ landed.drop write.landings)

variable {write : OpenWrite} {tree after : FileTree} {landed later : List Place}

theorem watched_fresh (fresh : write.landings = landed.length)
    (guard : write.overwrite = true ∨ tree.contains write.staged.path = false) :
    write.Watched tree landed := by
  constructor
  · exact Nat.le_of_eq fresh
  · intro guarded place lands
    rw [fresh, List.drop_length]
    constructor
    · intro file
      have found := contains_of_landing lands file
      rcases guard with allowed | absent
      · rw [guarded] at allowed
        cases allowed
      · rw [found] at absent
        cases absent
    · intro member
      cases member

theorem Watched.change (watched : write.Watched tree landed)
    (change : Change tree landed after later) : write.Watched after later := by
  obtain ⟨staged, meets⟩ := watched
  cases change with
  | staging temporaries =>
      refine ⟨staged, ?_⟩
      intro guarded place lands
      rw [landing_temporaries] at lands
      exact meets guarded place lands
  | @landing path target temporaries content reached =>
      have free : isDirectory { tree with temporaries := temporaries } target = false :=
        show tree.isDirectory target = false from is_directory_of_landing reached
      constructor
      · rw [List.length_append]
        omega
      · intro guarded place lands
        have before := landing_of_put free lands
        rw [landing_temporaries] at before
        have known := meets guarded place before
        have holds : HoldsFile (put { tree with temporaries := temporaries } target
            (.file content)) place ↔ tree.HoldsFile place ∨ place = target := by
          unfold HoldsFile
          rw [node?_put free]
          by_cases own : place = target
          · simp [own]
          · simp only [own, if_false, or_false]
            rfl
        rw [holds, known, List.drop_append_of_le_length staged, List.mem_append,
          List.mem_singleton]

end OpenWrite

namespace Desk

theorem watched_step {desk : Desk}
    (watched : ∀ entry ∈ desk.writes, entry.2.Watched desk.tree desk.landed) (step : WriteStep) :
    ∀ entry ∈ (desk.step step).writes,
      entry.2.Watched (desk.step step).tree (desk.step step).landed := by
  obtain ⟨change, origins⟩ := desk.step_changes step
  intro entry member
  rcases origins entry member with older | ⟨fresh, guard⟩
  · exact (watched entry older).change change
  · exact (OpenWrite.watched_fresh fresh guard).change change

theorem watched_run (tree : FileTree) (steps : List WriteStep) :
    ∀ entry ∈ ((start tree).run steps).writes,
      entry.2.Watched ((start tree).run steps).tree ((start tree).run steps).landed := by
  have invariant (desk : Desk)
      (watched : ∀ entry ∈ desk.writes, entry.2.Watched desk.tree desk.landed) :
      ∀ entry ∈ (desk.run steps).writes,
        entry.2.Watched (desk.run steps).tree (desk.run steps).landed := by
    induction steps generalizing desk with
    | nil => exact watched
    | cons step steps induction => exact induction (desk.step step) (watched_step watched step)
  apply invariant
  intro entry member
  cases member

end Desk

end FortranDeps

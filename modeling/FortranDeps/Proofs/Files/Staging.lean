import FortranDeps.Files.Staging
import Mathlib

/-!
What staging, committing and dropping do to a file tree. Temporary files never change what
a path leads to, so a staged write can be described by the tree without it and the list of
the writes that are still waiting.
-/

namespace FortranDeps

/-- Dropping the entries of a key changes no other look-up. -/
theorem lookup_filter_ne {Key Value : Type} [BEq Key] [LawfulBEq Key] [DecidableEq Key]
    (entries : List (Key × Value)) (key other : Key) :
    (entries.filter (·.1 != key)).lookup other =
      if other = key then none else entries.lookup other := by
  induction entries with
  | nil => simp
  | cons first rest induction =>
      by_cases own : first.1 = key
      · rw [List.filter_cons_of_neg (by simp [own]), induction]
        split
        · rfl
        · next differ => rw [List.lookup_cons, beq_false_of_ne (own ▸ differ)]
      · rw [List.filter_cons_of_pos (by simp [own]), List.lookup_cons, List.lookup_cons, induction]
        by_cases found : other = first.1
        · simp [found, own]
        · simp [beq_false_of_ne found]

namespace FileTree

theorem id_lt_fresh_id {tree : FileTree} {temporary : Temporary}
    (member : temporary ∈ tree.temporaries) : temporary.id < tree.freshId := by
  unfold freshId
  generalize tree.temporaries = temporaries at member
  induction temporaries with
  | nil => cases member
  | cons first rest induction =>
      rw [List.foldr_cons]
      rcases List.mem_cons.mp member with rfl | later
      · omega
      · have below := induction later
        omega

/-- A node can be put at any place that holds no directory, and changes no other place. -/
theorem node?_put {tree : FileTree} {place : Place} {node : Node}
    (free : tree.isDirectory place = false) (other : Place) :
    (tree.put place node).node? other = if other = place then some node else tree.node? other := by
  unfold put node?
  rw [List.lookup_append, lookup_filter_ne]
  by_cases own : other = place
  · have outside : place.isPrefixOf tree.workingDirectory = false := by
      cases above : place.isPrefixOf tree.workingDirectory with
      | false => rfl
      | true => simp [isDirectory, node?, above] at free
    simp [own, outside]
  · simp [own, List.lookup_cons, beq_false_of_ne own]

/-- Where a path leads depends only on the nodes. -/
theorem follow_congr {first second : FileTree} (same : first.node? = second.node?)
    (links : Nat) (here : Place) (segments : List (List Char)) :
    first.follow links here segments = second.follow links here segments := by
  have directories : first.isDirectory = second.isDirectory := by
    funext place
    rw [isDirectory, isDirectory, same]
  fun_induction follow first links here segments with
  | case1 => simp only [follow]
  | case2 links here segment rest directory idle induction =>
      rw [induction]
      simp [follow, ← directories, directory, idle]
  | case3 links here rest directory idle induction =>
      rw [induction]
      simp [follow, ← directories, directory, idle]
  | case4 links here segment rest directory idle upward place absent =>
      simp [follow, ← directories, directory, idle, upward, ← same, place, absent]
  | case5 here segment rest directory idle upward place target found =>
      simp [follow, ← directories, directory, idle, upward, ← same, place, found]
  | case6 links here segment rest directory idle upward place target found left origin segments
      begun induction =>
      rw [induction]
      simp [follow, ← directories, directory, idle, upward, ← same, place, found, left, begun]
  | case7 links here segment rest directory idle upward place node plain found induction =>
      rw [induction]
      simp [follow, ← directories, directory, idle, upward, ← same, place, found]
  | case8 links here segment rest directory =>
      simp [follow, ← directories, directory]

/-- Where a file ends up that is moved to a path. -/
def landing (tree : FileTree) (path : Path) : Except AccessFault Place := do
  let place ← tree.destination path
  if tree.isDirectory place then throw .isDirectory
  return place

theorem is_directory_of_landing {tree : FileTree} {path : Path} {place : Place}
    (lands : tree.landing path = .ok place) : tree.isDirectory place = false := by
  unfold landing at lands
  cases reached : tree.destination path with
  | error fault =>
      rw [reached] at lands
      cases lands
  | ok there =>
      rw [reached] at lands
      cases directory : tree.isDirectory there with
      | true => simp [bind, Except.bind, directory, throw, throwThe, MonadExceptOf.throw] at lands
      | false =>
          simp [bind, Except.bind, directory, pure, Except.pure] at lands
          rwa [← lands]

end FileTree

/-- A staged write with its temporary file. -/
structure Pending where
  path : Path
  temporary : Temporary

def Pending.staged (pending : Pending) : StagedWrite := ⟨pending.path, pending.temporary.id⟩

namespace FileTree

/-- The tree with the temporary files of writes that wait to be committed. -/
def awaiting (tree : FileTree) (writes : List Pending) : FileTree :=
  { tree with temporaries := tree.temporaries ++ writes.map (·.temporary) }

theorem awaiting_nil (tree : FileTree) : tree.awaiting [] = tree := by
  simp [awaiting]

theorem awaiting_awaiting (tree : FileTree) (first rest : List Pending) :
    (tree.awaiting first).awaiting rest = tree.awaiting (first ++ rest) := by
  simp [awaiting]

variable (tree : FileTree) (writes : List Pending) (path : Path)

theorem follow_awaiting (links : Nat) (here : Place) (segments : List (List Char)) :
    (tree.awaiting writes).follow links here segments = tree.follow links here segments := by
  have nodes : (tree.awaiting writes).node? = tree.node? := rfl
  exact follow_congr nodes links here segments

theorem locate_awaiting : (tree.awaiting writes).locate path = tree.locate path := by
  unfold locate
  simp only [follow_awaiting]
  rfl

theorem contains_awaiting : (tree.awaiting writes).contains path = tree.contains path := by
  unfold contains find
  rw [locate_awaiting]
  rfl

theorem landing_awaiting : (tree.awaiting writes).landing path = tree.landing path := by
  unfold landing destination
  simp only [follow_awaiting]
  rfl

/-- The waiting writes have identifiers of their own. -/
structure Apart (tree : FileTree) (writes : List Pending) : Prop where
  nodup : (writes.map (·.temporary.id)).Nodup
  fresh : ∀ write ∈ writes, ∀ temporary ∈ tree.temporaries, temporary.id ≠ write.temporary.id

namespace Apart

variable {tree : FileTree} {first : Pending} {rest : List Pending}

theorem nil (tree : FileTree) : tree.Apart [] := ⟨List.nodup_nil, by simp⟩

/-- A write that is staged before others has an identifier of its own. -/
theorem cons_fresh {path : Path} {place : Place} {content : ByteArray}
    (apart : (tree.awaiting [⟨path, tree.freshId, place, content⟩]).Apart rest) :
    tree.Apart (⟨path, tree.freshId, place, content⟩ :: rest) := by
  constructor
  · refine List.nodup_cons.mpr ⟨?_, apart.nodup⟩
    intro repeated
    obtain ⟨write, member, clash⟩ := List.mem_map.mp repeated
    exact apart.fresh write member _ (List.mem_append_right _ (by simp)) clash.symm
  · intro write member temporary old
    rcases List.mem_cons.mp member with rfl | later
    · exact Nat.ne_of_lt (id_lt_fresh_id old)
    · exact apart.fresh write later temporary (List.mem_append_left _ old)

theorem tail (apart : tree.Apart (first :: rest)) : tree.Apart rest where
  nodup := (List.nodup_cons.mp apart.nodup).2
  fresh write member := apart.fresh write (List.mem_cons_of_mem first member)

theorem find_first (apart : tree.Apart (first :: rest)) :
    (tree.awaiting (first :: rest)).temporaries.find? (·.id == first.temporary.id) =
      some first.temporary := by
  have before : tree.temporaries.find? (·.id == first.temporary.id) = none := by
    rw [List.find?_eq_none]
    intro temporary member
    simpa using apart.fresh first List.mem_cons_self temporary member
  simp [awaiting, List.find?_append, before]

theorem drop_first (apart : tree.Apart (first :: rest)) :
    first.staged.drop (tree.awaiting (first :: rest)) = tree.awaiting rest := by
  have before : tree.temporaries.filter (·.id != first.temporary.id) = tree.temporaries := by
    rw [List.filter_eq_self]
    intro temporary member
    simpa using apart.fresh first List.mem_cons_self temporary member
  have after : (rest.map (·.temporary)).filter (·.id != first.temporary.id) =
      rest.map (·.temporary) := by
    rw [List.filter_eq_self]
    intro temporary member
    obtain ⟨write, inRest, rfl⟩ := List.mem_map.mp member
    have differ : write.temporary.id ≠ first.temporary.id := by
      intro same
      exact (List.nodup_cons.mp apart.nodup).1 (List.mem_map.mpr ⟨write, inRest, same⟩)
    simpa using differ
  simp [StagedWrite.drop, awaiting, Pending.staged, before, after]

/-- Dropping every waiting write gives the tree back. -/
theorem drop_all {writes : List Pending} (apart : tree.Apart writes) :
    (writes.map Pending.staged).foldl (fun tree staged => staged.drop tree)
      (tree.awaiting writes) = tree := by
  induction writes with
  | nil => exact tree.awaiting_nil
  | cons first rest induction =>
      rw [List.map_cons, List.foldl_cons, apart.drop_first]
      exact induction apart.tail

/-- Committing the first waiting write moves its file to where it lands. -/
theorem commit_first (apart : tree.Apart (first :: rest)) :
    first.staged.commit (tree.awaiting (first :: rest)) =
      match tree.landing first.path with
      | .error fault => (.error (.io first.path fault.message), tree.awaiting rest)
      | .ok place =>
          (.ok (), (tree.put place (.file first.temporary.content)).awaiting rest) := by
  have target : first.staged.target (tree.awaiting (first :: rest)) = tree.landing first.path :=
    landing_awaiting tree (first :: rest) first.path
  unfold StagedWrite.commit
  simp only [apart.drop_first, target]
  rw [show first.staged.temporary = first.temporary.id from rfl, apart.find_first]
  cases tree.landing first.path with
  | error fault => rfl
  | ok place => rfl

end Apart

end FileTree

namespace StagedWrite

/-- Whether a write may be staged: the guard lets it pass, and there is a directory for
its temporary file. -/
def Stageable (tree : FileTree) (overwrite : Bool) (path : Path) : Prop :=
  (overwrite = true ∨ tree.contains path = false) ∧
    ∃ place, tree.locate (directory path) = .ok place ∧ tree.isDirectory place = true

theorem stageable_awaiting {tree : FileTree} {writes : List Pending} {overwrite : Bool}
    {path : Path} :
    Stageable (tree.awaiting writes) overwrite path ↔ Stageable tree overwrite path := by
  unfold Stageable
  rw [tree.contains_awaiting, tree.locate_awaiting]
  rfl

theorem stage_of_stageable {tree : FileTree} {overwrite : Bool} {path : Path}
    (stageable : Stageable tree overwrite path) (content : ByteArray) :
    ∃ place, stage tree path content overwrite =
      .ok (⟨path, tree.freshId⟩, tree.awaiting [⟨path, tree.freshId, place, content⟩]) := by
  obtain ⟨guard, place, located, directory⟩ := stageable
  refine ⟨place, ?_⟩
  unfold stage
  have passed : (!overwrite && tree.contains path) = false := by
    rcases guard with allowed | absent
    · simp [allowed]
    · simp [absent]
  simp [passed, located, directory, FileTree.awaiting]

theorem stage_of_not_stageable {tree : FileTree} {overwrite : Bool} {path : Path}
    (refused : ¬ Stageable tree overwrite path) (content : ByteArray) :
    ∃ diagnostic, stage tree path content overwrite = .error diagnostic := by
  unfold stage
  split
  · exact ⟨_, rfl⟩
  · next guard =>
      have passed : overwrite = true ∨ tree.contains path = false := by
        cases overwrite <;> simp_all
      simp only
      split
      · exact ⟨_, rfl⟩
      · next place located =>
          split
          · next directory => exact absurd ⟨passed, place, located, directory⟩ refused
          · exact ⟨_, rfl⟩

end StagedWrite

end FortranDeps

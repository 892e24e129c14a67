import FortranDeps.Proofs.Files.Staging

/-!
Where files land that are moved to a path. A file that stands there is found under the path, and a
file that has landed elsewhere opens no new ways, since no way leads through a file. So a path
that nothing was found under leads to a file only if one has landed there in the meantime.
-/

namespace FortranDeps.FileTree

variable {tree : FileTree} {path : Path} {place : Place}

def HoldsFile (tree : FileTree) (place : Place) : Prop :=
  ∃ content, tree.node? place = some (.file content)

theorem follow_append {links : Nat} {here target : Place} {first : List (List Char)}
    (leads : tree.follow links here first = .ok target) (rest : List (List Char)) :
    ∃ left, tree.follow links here (first ++ rest) = tree.follow left target rest := by
  fun_induction follow tree links here first with
  | case1 links here =>
      cases leads
      exact ⟨links, rfl⟩
  | case2 links here segment first directory idle induction =>
      obtain ⟨left, same⟩ := induction leads
      refine ⟨left, Eq.trans ?_ same⟩
      simp [follow, directory, idle]
  | case3 links here first directory idle induction =>
      obtain ⟨left, same⟩ := induction leads
      refine ⟨left, Eq.trans ?_ same⟩
      simp [follow, directory, idle]
  | case4 | case5 | case8 => cases leads
  | case6 links here segment first directory idle upward stop link found left origin segments begun
      induction =>
      obtain ⟨fewer, same⟩ := induction leads
      refine ⟨fewer, Eq.trans ?_ same⟩
      simp [follow, directory, idle, upward, stop, found, left, begun]
  | case7 links here segment first directory idle upward stop node plain found induction =>
      obtain ⟨left, same⟩ := induction leads
      refine ⟨left, Eq.trans ?_ same⟩
      simp [follow, directory, idle, upward, stop, found]

/-- A path that leads to a directory, and a name in it behind. -/
structure Leads (tree : FileTree) (path : Path) (directory : Place) (name : List Char) : Prop where
  way : ∃ origin leading, start tree.workingDirectory path = (origin, leading ++ [name]) ∧
    tree.follow linkLimit origin leading = .ok directory
  proper : Path.isIdle name = false
  downward : name ≠ ['.', '.']
  isDirectory : tree.isDirectory directory = true

theorem destination_eq_ok :
    tree.destination path = .ok place ↔
      ∃ directory name, tree.Leads path directory name ∧
        place = directory ++ [String.ofList name] := by
  constructor
  · intro reached
    unfold destination at reached
    split at reached
    next origin segments begun =>
    split at reached
    · split at reached <;> cases reached
    · next name leading trimmed =>
        cases followed : tree.follow linkLimit origin leading.reverse with
        | error fault =>
            rw [followed] at reached
            cases reached
        | ok directory =>
            rw [followed] at reached
            simp only [bind, Except.bind, throw, throwThe, MonadExceptOf.throw, pure,
              Except.pure] at reached
            split_ifs at reached with idle isDirectory trailing
            cases reached
            rw [Bool.or_eq_true, decide_eq_true_eq, not_or] at idle
            -- The last segment is not empty, so none is left out.
            have whole : segments.reverse = name :: leading := by
              rw [← trimmed]
              cases last : segments.reverse with
              | nil => rfl
              | cons segment before =>
                  rw [← List.head?_reverse, last] at trailing
                  exact (List.dropWhile_cons_of_neg (by simpa using trailing)).symm
            have shape : segments = leading.reverse ++ [name] := by
              rw [← List.reverse_reverse segments, whole, List.reverse_cons]
            refine ⟨directory, name, ⟨⟨origin, leading.reverse, ?_, followed⟩, ?_, idle.2,
              isDirectory⟩, rfl⟩
            · rw [begun, shape]
            · exact Bool.eq_false_iff.mpr idle.1
  · rintro ⟨directory, name, ⟨⟨origin, leading, begun, followed⟩, proper, downward, isDirectory⟩,
      rfl⟩
    have written : name.isEmpty = false := by
      cases name with
      | nil => cases proper
      | cons first rest => rfl
    unfold destination
    rw [begun]
    simp [followed, proper, downward, isDirectory, written, bind, Except.bind, pure,
      Except.pure]

theorem landing_eq_ok (lands : tree.landing path = .ok place) :
    tree.destination path = .ok place ∧ tree.isDirectory place = false := by
  refine ⟨?_, is_directory_of_landing lands⟩
  unfold landing at lands
  cases reached : tree.destination path with
  | error fault =>
      rw [reached] at lands
      cases lands
  | ok there =>
      rw [reached] at lands
      simp only [bind, Except.bind, throw, throwThe, MonadExceptOf.throw, pure,
        Except.pure] at lands
      split_ifs at lands
      exact lands

theorem text_ne_of_destination (reached : tree.destination path = .ok place) : path.text ≠ "" := by
  intro empty
  have segments : path.segments = [[]] := by
    unfold Path.segments
    rw [empty]
    rfl
  unfold destination start at reached
  simp [segments, empty] at reached

/-- A file that stands where a path lands is found under the path. -/
theorem contains_of_landing (lands : tree.landing path = .ok place) (file : tree.HoldsFile place) :
    tree.contains path = true := by
  obtain ⟨reached, -⟩ := landing_eq_ok lands
  obtain ⟨content, stands⟩ := file
  have located : tree.locate path = .ok place := by
    have written := text_ne_of_destination reached
    obtain ⟨directory, name, leads, rfl⟩ := destination_eq_ok.mp reached
    obtain ⟨origin, leading, begun, followed⟩ := leads.way
    obtain ⟨left, same⟩ := follow_append followed [name]
    unfold locate
    rw [if_neg written, begun]
    simp [same, follow, leads.isDirectory, leads.proper, leads.downward, stands]
  simp [contains, find, located, bind, Except.bind, stands, pure, Except.pure, Except.toOption]

section Put

variable {content : ByteArray} (free : tree.isDirectory place = false)

include free

theorem is_directory_put (other : Place) :
    (tree.put place (.file content)).isDirectory other = tree.isDirectory other := by
  unfold isDirectory
  rw [node?_put free]
  split
  · next own =>
      unfold isDirectory at free
      rw [own, free]
      rfl
  · rfl

/-- A way to a directory in a tree in which a file has landed was there before. -/
theorem follow_of_put {target : Place} (isDirectory : tree.isDirectory target = true)
    {links : Nat} {here : Place} {segments : List (List Char)}
    (leads : (tree.put place (.file content)).follow links here segments = .ok target) :
    tree.follow links here segments = .ok target := by
  have directories : (tree.put place (.file content)).isDirectory = tree.isDirectory :=
    funext (is_directory_put free)
  have kept {other : Place} {node : Node} (plain : node ≠ .file content)
      (found : (tree.put place (.file content)).node? other = some node) :
      tree.node? other = some node := by
    rw [node?_put free] at found
    split at found
    · exact absurd (Option.some.inj found).symm plain
    · exact found
  fun_induction follow (tree.put place (.file content)) links here segments with
  | case1 => simpa only [follow] using leads
  | case2 links here segment rest directory idle induction =>
      rw [← induction leads]
      simp [follow, ← directories, directory, idle]
  | case3 links here rest directory idle induction =>
      rw [← induction leads]
      simp [follow, ← directories, directory, idle]
  | case4 | case5 | case8 => cases leads
  | case6 links here segment rest directory idle upward stop link found left origin segments begun
      induction =>
      have linked := kept (by simp) found
      rw [← induction leads]
      simp [follow, ← directories, directory, idle, upward, stop, linked, left, begun]
  | case7 links here segment rest directory idle upward stop node plain found induction =>
      -- No way goes on behind a file, and a file is not the directory at the end of one.
      have passable : node ≠ .file content := by
        rintro rfl
        have blocked : (tree.put place (.file content)).isDirectory stop = false := by
          simp [FileTree.isDirectory, found]
        cases rest with
        | nil =>
            simp only [follow, Except.ok.injEq] at leads
            rw [leads, directories, isDirectory] at blocked
            cases blocked
        | cons next later => simp [follow, blocked] at leads
      have present := kept passable found
      rw [← induction leads]
      simp [follow, ← directories, directory, idle, upward, stop, present]

/-- A file that has landed leads no other file to a new place. -/
theorem landing_of_put {path : Path} {target : Place}
    (lands : (tree.put place (.file content)).landing path = .ok target) :
    tree.landing path = .ok target := by
  obtain ⟨reached, accessible⟩ := landing_eq_ok lands
  obtain ⟨directory, name, leads, rfl⟩ := destination_eq_ok.mp reached
  have isDirectory := leads.isDirectory
  rw [is_directory_put free] at isDirectory accessible
  obtain ⟨origin, leading, begun, followed⟩ := leads.way
  have before : tree.Leads path directory name :=
    ⟨⟨origin, leading, begun, follow_of_put free isDirectory followed⟩, leads.proper,
      leads.downward, isDirectory⟩
  have there := destination_eq_ok.mpr ⟨directory, name, before, rfl⟩
  unfold landing
  simp [there, bind, Except.bind, accessible, pure, Except.pure]

end Put

end FortranDeps.FileTree

import FortranDeps.Proofs.Files.Staging

/-!
What a regular file can be missed for. A path that leads to another place is not affected by its
removal: the file is no directory, so no path leads through it.
-/

namespace FortranDeps.FileTree

theorem is_file_iff {tree : FileTree} {path : Path} :
    tree.isFile path = true ↔ ∃ content, tree.find path = .ok (.file content) := by
  unfold isFile
  split
  · next content same => simp [same]
  · next other => simpa using other

section Erase

variable {tree : FileTree} {place : Place} {content : ByteArray}
  (file : tree.node? place = some (.file content))

include file

theorem node?_erase (other : Place) :
    (tree.erase place).node? other = if other = place then none else tree.node? other := by
  have outside : place.isPrefixOf tree.workingDirectory = false := by
    cases above : place.isPrefixOf tree.workingDirectory with
    | false => rfl
    | true => simp [node?, above] at file
  unfold erase node?
  rw [lookup_filter_ne]
  by_cases own : other = place
  · simp [own, outside]
  · simp [own]

theorem is_directory_erase (other : Place) :
    (tree.erase place).isDirectory other = tree.isDirectory other := by
  unfold isDirectory
  rw [node?_erase file]
  by_cases own : other = place
  · simp [own, file]
  · simp [own]

theorem follow_erase {target : Place} (elsewhere : target ≠ place) (links : Nat) (here : Place)
    (segments : List (List Char)) :
    (tree.erase place).follow links here segments = .ok target ↔
      tree.follow links here segments = .ok target := by
  have directories : (tree.erase place).isDirectory = tree.isDirectory :=
    funext (is_directory_erase file)
  -- The way of a path that goes on behind the file ends there.
  have blocked (links : Nat) (rest : List (List Char)) :
      tree.follow links place rest ≠ .ok target := by
    cases rest with
    | nil => simpa [follow] using elsewhere.symm
    | cons segment rest => simp [follow, isDirectory, file]
  have kept {other : Place} (differs : tree.node? other ≠ some (.file content)) :
      (tree.erase place).node? other = tree.node? other := by
    have apart : other ≠ place := by
      rintro rfl
      exact differs file
    rw [node?_erase file, if_neg apart]
  fun_induction follow tree links here segments with
  | case1 => simp only [follow]
  | case2 links here segment rest directory idle induction =>
      refine Iff.trans ?_ induction
      simp [follow, directories, directory, idle]
  | case3 links here rest directory idle induction =>
      refine Iff.trans ?_ induction
      simp [follow, directories, directory, idle]
  | case4 links here segment rest directory idle upward stop absent =>
      have missing := (kept (by simp [absent])).trans absent
      simp [follow, directories, directory, idle, upward, stop, missing]
  | case5 here segment rest directory idle upward stop link found =>
      have linked := (kept (by simp [found])).trans found
      simp [follow, directories, directory, idle, upward, stop, linked]
  | case6 links here segment rest directory idle upward stop link found left origin segments
      begun induction =>
      have linked := (kept (by simp [found])).trans found
      refine Iff.trans ?_ induction
      simp [follow, directories, directory, idle, upward, stop, linked, left, begun]
  | case7 links here segment rest directory idle upward stop node plain found induction =>
      by_cases own : stop = place
      · have missing : (tree.erase place).node? stop = none := by
          rw [node?_erase file, if_pos own]
        have ended : tree.follow links stop rest ≠ .ok target := own ▸ blocked links rest
        simp [follow, directories, directory, idle, upward, stop, missing, ended]
      · have present : (tree.erase place).node? stop = some node := by
          rw [node?_erase file, if_neg own, found]
        refine Iff.trans ?_ induction
        simp [follow, directories, directory, idle, upward, stop, present]
  | case8 links here segment rest directory =>
      simp [follow, directories, directory]

theorem locate_erase {target : Place} (elsewhere : target ≠ place) (path : Path) :
    (tree.erase place).locate path = .ok target ↔ tree.locate path = .ok target := by
  unfold locate
  split
  · simp
  · exact follow_erase file elsewhere _ _ _

/-- What a path leads to in a tree without the file. -/
theorem find_erase (path : Path) (node : Node) :
    (tree.erase place).find path = .ok node ↔
      tree.find path = .ok node ∧ tree.locate path ≠ .ok place := by
  have found (tree : FileTree) : tree.find path = .ok node ↔
      ∃ target, tree.locate path = .ok target ∧ tree.node? target = some node := by
    unfold find
    cases tree.locate path with
    | error fault => simp [bind, Except.bind]
    | ok target =>
        cases stands : tree.node? target <;> simp [bind, Except.bind, pure, Except.pure, stands]
  rw [found, found]
  constructor
  · rintro ⟨target, leads, stands⟩
    rw [node?_erase file] at stands
    split at stands
    · cases stands
    · next elsewhere =>
        have same := (locate_erase file elsewhere path).mp leads
        refine ⟨⟨target, same, stands⟩, ?_⟩
        rw [same]
        simpa using elsewhere
  · rintro ⟨⟨target, leads, stands⟩, other⟩
    have elsewhere : target ≠ place := by
      rintro rfl
      exact other leads
    refine ⟨target, (locate_erase file elsewhere path).mpr leads, ?_⟩
    rw [node?_erase file, if_neg elsewhere, stands]

theorem is_file_erase {path : Path} :
    (tree.erase place).isFile path = true ↔
      tree.isFile path = true ∧ tree.locate path ≠ .ok place := by
  simp only [is_file_iff, find_erase file, exists_and_right]

theorem read_text_erase {path : Path} (isFile : tree.isFile path = true)
    (other : tree.locate path ≠ .ok place) :
    (tree.erase place).readText path = tree.readText path := by
  obtain ⟨own, found⟩ := is_file_iff.mp isFile
  have kept := (find_erase file path (.file own)).mpr ⟨found, other⟩
  unfold readText
  rw [found, kept]

end Erase

end FortranDeps.FileTree

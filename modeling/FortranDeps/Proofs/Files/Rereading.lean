import FortranDeps.Preprocess.Inclusion
import FortranDeps.Proofs.Files.Landing

/-!
Files that are read after they have been written. A write puts a file at one place and leaves every
other place alone, so the path leads to that file afterwards, unless it leads through a link that
stood at this place: the file has replaced the link, and no way leads through a file.
-/

namespace FortranDeps.FileTree

variable {tree : FileTree}

/-- The places of the links that a walk follows. -/
def linksPassed (tree : FileTree) (links : Nat) (here : Place) : List (List Char) → List Place
  | [] => []
  | segment :: rest =>
      if tree.isDirectory here then
        if Path.isIdle segment then linksPassed tree links here rest
        else if segment = ['.', '.'] then linksPassed tree links here.dropLast rest
        else
          let place := here ++ [String.ofList segment]
          match tree.node? place with
          | none => []
          | some (.link target) =>
              if links = 0 then []
              else
                let (origin, segments) := start here ⟨target⟩
                place :: linksPassed tree (links - 1) origin (segments ++ rest)
          | some _ => linksPassed tree links place rest
      else []
termination_by segments => (links, segments.length)

/-- The places of the links on the way to the last name of a path. -/
def linksOnWay (tree : FileTree) (path : Path) : List Place :=
  let (origin, segments) := start tree.workingDirectory path
  tree.linksPassed linkLimit origin segments.dropLast

section Put

variable {place : Place} {content : ByteArray} (free : tree.isDirectory place = false)

include free

/-- A way to a directory is still there if none of its links has been replaced. -/
theorem follow_put {target : Place} (isDirectory : tree.isDirectory target = true)
    {links : Nat} {here : Place} {segments : List (List Char)}
    (leads : tree.follow links here segments = .ok target)
    (kept : place ∉ tree.linksPassed links here segments) :
    (tree.put place (.file content)).follow links here segments = .ok target := by
  have directories : tree.isDirectory = (tree.put place (.file content)).isDirectory :=
    funext fun other => (is_directory_put free other).symm
  have nodes {other : Place} (elsewhere : other ≠ place) :
      (tree.put place (.file content)).node? other = tree.node? other := by
    rw [node?_put free, if_neg elsewhere]
  fun_induction follow tree links here segments with
  | case1 => simpa only [follow] using leads
  | case2 links here segment rest directory idle induction =>
      have later : place ∉ tree.linksPassed links here rest := by
        simpa [linksPassed, directory, idle] using kept
      rw [← induction leads later]
      simp [follow, ← directories, directory, idle]
  | case3 links here rest directory idle induction =>
      have later : place ∉ tree.linksPassed links here.dropLast rest := by
        simpa [linksPassed, directory, idle] using kept
      rw [← induction leads later]
      simp [follow, ← directories, directory, idle]
  | case4 | case5 | case8 => cases leads
  | case6 links here segment rest directory idle upward stop link found left origin segments begun
      induction =>
      have later : ¬ place = stop ∧
          place ∉ tree.linksPassed (links - 1) origin (segments ++ rest) := by
        simpa [linksPassed, directory, idle, upward, stop, found, left, begun] using kept
      have linked := (nodes (Ne.symm later.1)).trans found
      rw [← induction leads later.2]
      simp [follow, ← directories, directory, idle, upward, stop, linked, left, begun]
  | case7 links here segment rest directory idle upward stop node plain found induction =>
      -- The place is no directory, so no way could go on from it or end there.
      have elsewhere : stop ≠ place := by
        intro same
        cases rest with
        | nil =>
            simp only [follow, Except.ok.injEq] at leads
            rw [← leads, same, free] at isDirectory
            cases isDirectory
        | cons next later => simp [follow, same, free] at leads
      have present := (nodes elsewhere).trans found
      have later : place ∉ tree.linksPassed links stop rest := by
        cases node with
        | link target => exact absurd rfl (plain target)
        | file | directory =>
            simpa [linksPassed, directory, idle, upward, stop, found] using kept
      rw [← induction leads later]
      simp [follow, ← directories, directory, idle, upward, stop, present]

/-- A way through a link that has been replaced stops there. -/
theorem follow_put_stops {target : Place} {links : Nat} {here : Place}
    {segments : List (List Char)} (leads : tree.follow links here segments = .ok target)
    (replaced : place ∈ tree.linksPassed links here segments) (name : List Char) :
    (tree.put place (.file content)).follow links here (segments ++ [name]) =
      .error .notDirectory := by
  have directories : tree.isDirectory = (tree.put place (.file content)).isDirectory :=
    funext fun other => (is_directory_put free other).symm
  have blocked (more : List (List Char)) (left : Nat) :
      (tree.put place (.file content)).follow left place (more ++ [name]) =
        .error .notDirectory := by
    cases more <;> simp [follow, ← directories, free]
  have nodes (other : Place) : (tree.put place (.file content)).node? other =
      if other = place then some (.file content) else tree.node? other := node?_put free other
  fun_induction follow tree links here segments with
  | case1 => simp [linksPassed] at replaced
  | case2 links here segment rest directory idle induction =>
      have later : place ∈ tree.linksPassed links here rest := by
        simpa [linksPassed, directory, idle] using replaced
      rw [← induction leads later]
      simp [follow, ← directories, directory, idle]
  | case3 links here rest directory idle induction =>
      have later : place ∈ tree.linksPassed links here.dropLast rest := by
        simpa [linksPassed, directory, idle] using replaced
      rw [← induction leads later]
      simp [follow, ← directories, directory, idle]
  | case4 | case5 | case8 => cases leads
  | case6 links here segment rest directory idle upward stop link found left origin segments begun
      induction =>
      by_cases own : stop = place
      · simp [follow, ← directories, directory, idle, upward, stop, nodes, own, blocked]
      · have later : place ∈ tree.linksPassed (links - 1) origin (segments ++ rest) := by
          simpa [linksPassed, directory, idle, upward, stop, found, left, begun, Ne.symm own]
            using replaced
        rw [← induction leads later]
        simp [follow, ← directories, directory, idle, upward, stop, nodes, own, found, left, begun]
  | case7 links here segment rest directory idle upward stop node plain found induction =>
      by_cases own : stop = place
      · simp [follow, ← directories, directory, idle, upward, stop, nodes, own, blocked]
      · have later : place ∈ tree.linksPassed links stop rest := by
          cases node with
          | link target => exact absurd rfl (plain target)
          | file | directory =>
              simpa [linksPassed, directory, idle, upward, stop, found] using replaced
        rw [← induction leads later]
        simp [follow, ← directories, directory, idle, upward, stop, nodes, own, found]

end Put

/-- A file that has landed is found under its path, unless it stands in the way itself. -/
theorem find_put {path : Path} {place : Place} (lands : tree.landing path = .ok place)
    (content : ByteArray) :
    (tree.put place (.file content)).find path =
      if place ∈ tree.linksOnWay path then .error .notDirectory else .ok (.file content) := by
  obtain ⟨reached, free⟩ := landing_eq_ok lands
  have written := text_ne_of_destination reached
  obtain ⟨directory, name, leads, rfl⟩ := destination_eq_ok.mp reached
  obtain ⟨origin, leading, begun, followed⟩ := leads.way
  have way : tree.linksOnWay path = tree.linksPassed linkLimit origin leading := by
    unfold linksOnWay
    rw [begun]
    simp
  have located : (tree.put (directory ++ [String.ofList name]) (.file content)).locate path =
      (tree.put (directory ++ [String.ofList name]) (.file content)).follow linkLimit origin
        (leading ++ [name]) := by
    unfold locate
    rw [if_neg written]
    change (match start tree.workingDirectory path with | (origin, segments) => _) = _
    rw [begun]
  unfold find
  rw [located, way]
  split
  · next replaced =>
      rw [follow_put_stops free followed replaced]
      rfl
  · next kept =>
      have stillThere : (tree.put (directory ++ [String.ofList name]) (.file content)).follow
          linkLimit origin leading = .ok directory :=
        follow_put free leads.isDirectory followed kept
      obtain ⟨left, same⟩ := follow_append stillThere [name]
      have file : (tree.put (directory ++ [String.ofList name]) (.file content)).node?
          (directory ++ [String.ofList name]) = some (.file content) := by
        rw [node?_put free, if_pos rfl]
      have isDirectory : (tree.put (directory ++ [String.ofList name])
          (.file content)).isDirectory directory = true :=
        (is_directory_put free directory).trans leads.isDirectory
      rw [same]
      simp [follow, isDirectory, leads.proper, leads.downward, file, bind, Except.bind, pure,
        Except.pure]

theorem from_utf8?_to_utf8 (text : String) : String.fromUTF8? text.toUTF8 = some text :=
  dif_pos text.isValidUTF8

theorem read_text_of_find {path : Path} {text : String}
    (found : tree.find path = .ok (.file text.toUTF8)) : tree.readText path = .ok text := by
  unfold readText
  rw [found]
  simp only [bind, Except.bind, from_utf8?_to_utf8, pure, Except.pure]

theorem read_lines_of_find {path : Path} {text : String} {lines : List Line}
    (found : tree.find path = .ok (.file text.toUTF8)) (kept : Line.ofText path.text text = lines) :
    tree.readLines path = .ok lines := by
  unfold readLines
  rw [read_text_of_find found]
  exact congrArg Except.ok kept

theorem read_text_put {path : Path} {place : Place} (lands : tree.landing path = .ok place)
    (text : String) :
    (tree.put place (.file text.toUTF8)).readText path =
      if place ∈ tree.linksOnWay path then .error .notDirectory else .ok text := by
  unfold readText
  rw [find_put lands]
  split
  · rfl
  · simp only [bind, Except.bind, from_utf8?_to_utf8, pure, Except.pure]

/-- A write that can be staged puts the file where its path lands, and does nothing else. -/
theorem write_file_of_stageable {path : Path} {overwrite : Bool}
    (stageable : StagedWrite.Stageable tree overwrite path) (content : ByteArray) :
    tree.writeFile path content overwrite =
      match tree.landing path with
      | .error fault => (.error (.io path fault.message), tree)
      | .ok place => (.ok (), tree.put place (.file content)) := by
  obtain ⟨directory, staged⟩ := StagedWrite.stage_of_stageable stageable content
  have apart : tree.Apart [⟨path, tree.freshId, directory, content⟩] :=
    Apart.cons_fresh (Apart.nil _)
  unfold writeFile
  rw [staged]
  have committed := apart.commit_first
  rw [awaiting_nil] at committed
  refine committed.trans ?_
  dsimp only
  cases tree.landing path with
  | error fault => rfl
  | ok place => exact congrArg (Prod.mk _) (awaiting_nil _)

theorem write_file_eq_ok {after : FileTree} {path : Path} {content : ByteArray} {overwrite : Bool}
    (done : tree.writeFile path content overwrite = (.ok (), after)) :
    ∃ place, tree.landing path = .ok place ∧ after = tree.put place (.file content) := by
  by_cases stageable : StagedWrite.Stageable tree overwrite path
  · rw [write_file_of_stageable stageable] at done
    cases lands : tree.landing path with
    | error fault =>
        rw [lands] at done
        cases done
    | ok place =>
        rw [lands] at done
        cases done
        exact ⟨place, rfl, rfl⟩
  · obtain ⟨diagnostic, refused⟩ := StagedWrite.stage_of_not_stageable stageable content
    unfold writeFile at done
    rw [refused] at done
    cases done

end FortranDeps.FileTree

import FortranDeps.Proofs.Build.Listing
import FortranDeps.Proofs.Files.Landing
import FortranDeps.Proofs.Files.Spelling

/-!
Descending in a file tree. A name that is joined to a path stands behind its components, and the
joined path leads to the entry of that name in the directory that the path leads to.
-/

namespace FortranDeps

namespace Path

/-- A name that an entry of a directory can have. -/
structure IsEntryName (name : String) : Prop where
  proper : IsName name.toList
  downward : name.toList ≠ ['.', '.']

theorem is_entry_name_iff {name : String} : IsEntryName name ↔
    ('/' ∉ name.toList ∧ isIdle name.toList = false) ∧ name.toList ≠ ['.', '.'] :=
  ⟨fun entry => ⟨⟨entry.proper.clean, entry.proper.busy⟩, entry.downward⟩,
    fun ⟨⟨clean, busy⟩, downward⟩ => ⟨⟨clean, busy⟩, downward⟩⟩

instance : DecidablePred IsEntryName := fun _ => decidable_of_iff' _ is_entry_name_iff

/-- The path that names lead to from another one. -/
def descend (root : Path) (names : List String) : Path := names.foldl join root

section Join

variable {path : Path} {name : String} (written : path.text ≠ "") (entry : IsEntryName name)

include written entry

theorem text_join : (path.join name).text.toList =
    path.text.toList ++ (if path.text.toList.getLast? = some '/' then [] else ['/']) ++
      name.toList := by
  have relative : isAbsolute ⟨name⟩ = false := by
    have clean := entry.proper.clean
    unfold isAbsolute
    cases spelled : name.toList with
    | nil => rfl
    | cons c rest =>
        rw [spelled, List.mem_cons, not_or] at clean
        simp [Ne.symm clean.1]
  unfold join
  rw [relative]
  by_cases slash : path.text.toList.getLast? = some '/' <;> simp [written, slash]

/-- The segments of a joined path: those of the path, less an empty one at the end, and the name. -/
theorem exists_segments_join : ∃ first more,
    (path.join name).segments = first :: (more ++ [name.toList]) ∧
      (path.segments = first :: more ∧ (first = [] → more ≠ []) ∨
        path.segments = first :: (more ++ [[]])) := by
  have single : Text.splitOn '/' name.toList = [name.toList] :=
    Text.split_on_of_not_mem entry.proper.clean
  have filled : path.text.toList ≠ [] := by simpa using written
  unfold segments
  rw [text_join written entry]
  split
  · next slash =>
      obtain ⟨front, ends⟩ := List.getLast?_eq_some_iff.mp slash
      obtain ⟨first, more, pieces⟩ := List.exists_cons_of_ne_nil (Text.split_on_ne_nil '/' front)
      refine ⟨first, more, ?_, .inr ?_⟩
      · rw [List.append_nil, ends, List.append_assoc, List.singleton_append,
          Text.split_on_append_separator, single, pieces, List.cons_append]
      · rw [ends, Text.split_on_append_separator, pieces]
        rfl
  · obtain ⟨first, more, pieces⟩ :=
      List.exists_cons_of_ne_nil (Text.split_on_ne_nil '/' path.text.toList)
    refine ⟨first, more, ?_, .inl ⟨pieces, ?_⟩⟩
    · rw [List.append_assoc, List.singleton_append, Text.split_on_append_separator, single, pieces,
        List.cons_append]
    · rintro rfl rfl
      exact filled (Text.eq_nil_of_split_on pieces)

theorem components_join : (path.join name).components = path.components ++ [.normal name] := by
  have named : component name.toList = .normal name := by
    rw [component, if_neg entry.downward, String.ofList_toList]
  have behind (more : List (List Char)) :
      ((more ++ [name.toList]).filter (!isIdle ·)).map component =
        (more.filter (!isIdle ·)).map component ++ [.normal name] := by
    rw [List.filter_append, List.map_append, List.filter_cons_of_pos (by simp [entry.proper.busy])]
    simp [named]
  obtain ⟨first, more, joined, own⟩ := exists_segments_join written entry
  rw [components_of_segments joined (by simp), ← List.cons_append, behind, ← List.append_assoc]
  congr 1
  rcases own with ⟨pieces, some⟩ | pieces
  · rw [components_of_segments pieces some]
  · rw [components_of_segments pieces (by simp), ← List.cons_append, List.filter_append]
    simp [isIdle]

theorem join_written : (path.join name).text ≠ "" := by
  intro empty
  have text := text_join written entry
  rw [empty, eq_comm, String.toList_empty, List.append_eq_nil_iff] at text
  exact entry.proper.not_idle.1 text.2

end Join

theorem descend_append (root : Path) (first second : List String) :
    root.descend (first ++ second) = (root.descend first).descend second := List.foldl_append

theorem descend_written {root : Path} {names : List String} (written : root.text ≠ "")
    (entries : ∀ name ∈ names, IsEntryName name) : (root.descend names).text ≠ "" := by
  induction names generalizing root with
  | nil => exact written
  | cons name rest induction =>
      obtain ⟨entry, others⟩ := List.forall_mem_cons.mp entries
      exact induction (join_written written entry) others

theorem components_descend {root : Path} {names : List String} (written : root.text ≠ "")
    (entries : ∀ name ∈ names, IsEntryName name) :
    (root.descend names).components = root.components ++ names.map Component.normal := by
  induction names generalizing root with
  | nil => simp [descend]
  | cons name rest induction =>
      obtain ⟨entry, others⟩ := List.forall_mem_cons.mp entries
      rw [descend, List.foldl_cons, ← descend, induction (join_written written entry) others,
        components_join written entry, List.append_assoc]
      rfl

end Path

namespace FileTree

/-- A file tree with one node at each place, whose nodes have names that entries of directories can
have and stand in directories. -/
structure WellFormed (tree : FileTree) : Prop where
  distinct : (tree.nodes.map (·.1)).Nodup
  named : ∀ place node, tree.node? place = some node → ∀ name ∈ place, Path.IsEntryName name
  parents : ∀ place name node, tree.node? (place ++ [name]) = some node →
    tree.isDirectory place = true

/-- A node at a place that is not a link. -/
def Stands (tree : FileTree) (place : Place) : Prop :=
  tree.HoldsFile place ∨ tree.isDirectory place = true

variable {tree : FileTree} {path : Path} {place : Place} {name : String}

theorem is_directory_iff : tree.isDirectory place = true ↔ tree.node? place = some .directory := by
  rw [isDirectory, beq_iff_eq]

theorem is_directory_start (here : Place) (directory : tree.isDirectory here = true) (path : Path) :
    tree.isDirectory (start here path).1 = true := by
  unfold start
  split
  · simp [isDirectory, node?]
  · exact directory

theorem is_directory_drop_last (formed : tree.WellFormed)
    (directory : tree.isDirectory place = true) : tree.isDirectory place.dropLast = true := by
  rcases List.eq_nil_or_concat' place with rfl | ⟨front, name, rfl⟩
  · exact directory
  · rw [List.dropLast_concat]
    exact formed.parents front name .directory (is_directory_iff.mp directory)

/-- A way leads to a file or a directory. -/
theorem stands_of_follow (formed : tree.WellFormed) {links : Nat} {here target : Place}
    {segments : List (List Char)} (stands : tree.Stands here)
    (leads : tree.follow links here segments = .ok target) : tree.Stands target := by
  fun_induction follow tree links here segments with
  | case1 =>
      cases leads
      exact stands
  | case2 links here segment rest directory idle induction => exact induction stands leads
  | case3 links here rest directory idle induction =>
      exact induction (.inr (is_directory_drop_last formed directory)) leads
  | case4 | case5 | case8 => cases leads
  | case6 links here segment rest directory idle upward place target found left origin segments
      begun induction =>
      refine induction (.inr ?_) leads
      have first : (start here ⟨target⟩).1 = origin := congrArg Prod.fst begun
      rw [← first]
      exact is_directory_start here directory ⟨target⟩
  | case7 links here segment rest directory idle upward place node plain found induction =>
      refine induction ?_ leads
      cases node with
      | file content => exact .inl ⟨content, found⟩
      | directory => exact .inr (is_directory_iff.mpr found)
      | link target => exact absurd rfl (plain target)

theorem follow_append_error {links : Nat} {here : Place} {fault : AccessFault}
    {first : List (List Char)} (fails : tree.follow links here first = .error fault)
    (rest : List (List Char)) : tree.follow links here (first ++ rest) = .error fault := by
  fun_induction follow tree links here first with
  | case1 => cases fails
  | case2 links here segment first directory idle induction =>
      rw [← induction fails]
      simp [follow, directory, idle]
  | case3 links here first directory idle induction =>
      rw [← induction fails]
      simp [follow, directory, idle]
  | case4 links here segment first directory idle upward place absent =>
      rw [← fails]
      simp [follow, directory, idle, upward, place, absent]
  | case5 here segment first directory idle upward place target found =>
      rw [← fails]
      simp [follow, directory, idle, upward, place, found]
  | case6 links here segment first directory idle upward place target found left origin segments
      begun induction =>
      rw [← induction fails]
      simp [follow, directory, idle, upward, place, found, left, begun]
  | case7 links here segment first directory idle upward place node plain found induction =>
      rw [← induction fails]
      simp [follow, directory, idle, upward, place, found]
  | case8 links here segment first directory =>
      rw [← fails]
      simp [follow, directory]

/-- A way that leads somewhere leads there if more links may be followed. -/
theorem follow_more_links {links more : Nat} {here target : Place} {segments : List (List Char)}
    (leads : tree.follow links here segments = .ok target) (bound : links ≤ more) :
    tree.follow more here segments = .ok target := by
  fun_induction follow tree links here segments generalizing more with
  | case1 =>
      rw [follow]
      exact leads
  | case2 links here segment rest directory idle induction =>
      rw [← induction leads bound]
      simp [follow, directory, idle]
  | case3 links here rest directory idle induction =>
      rw [← induction leads bound]
      simp [follow, directory, idle]
  | case4 | case5 | case8 => cases leads
  | case6 links here segment rest directory idle upward place target found left origin segments
      begun =>
      rename_i induction
      have some : more ≠ 0 := by omega
      rw [← induction leads (Nat.sub_le_sub_right bound 1)]
      simp [follow, directory, idle, upward, place, found, some, begun]
  | case7 links here segment rest directory idle upward place node plain found =>
      rename_i induction
      rw [← induction leads bound]
      simp [follow, directory, idle, upward, place, found]

theorem stands_of_locate (formed : tree.WellFormed) (located : tree.locate path = .ok place) :
    tree.Stands place := by
  unfold locate at located
  split at located
  · cases located
  · have home : tree.isDirectory tree.workingDirectory = true := by simp [isDirectory, node?]
    exact stands_of_follow formed (.inr (is_directory_start _ home path)) located

theorem is_file_iff_holds_file : tree.isFile path = true ↔
    ∃ place, tree.locate path = .ok place ∧ tree.HoldsFile place := by
  unfold isFile find
  cases located : tree.locate path with
  | error fault => simp [bind, Except.bind]
  | ok place =>
      simp only [bind, Except.bind, Except.ok.injEq, exists_eq_left', HoldsFile]
      cases tree.node? place with
      | none => simp [throw, throwThe, MonadExceptOf.throw]
      | some node => cases node <;> simp [pure, Except.pure]

/-! Entries. -/

theorem nodup_erase_dups (names : List String) : names.eraseDups.Nodup := by
  match names with
  | [] => exact List.nodup_nil
  | name :: rest =>
      rw [List.eraseDups_cons, List.nodup_cons, List.mem_eraseDups]
      exact ⟨by simp, nodup_erase_dups _⟩
termination_by names.length
decreasing_by
  have fewer := List.length_filter_le (fun other => !other == name) rest
  simp only [List.length_cons]
  omega

theorem mem_places_iff : place ∈ tree.places ↔ ∃ node, tree.node? place = some node := by
  constructor
  · intro member
    unfold node?
    split
    · exact ⟨_, rfl⟩
    · next outside =>
        rw [← Option.isSome_iff_exists, List.lookup_isSome_iff]
        rcases List.mem_append.mp member with above | inside
        · obtain ⟨length, -, rfl⟩ := List.mem_map.mp above
          exact absurd (List.isPrefixOf_iff_prefix.mpr (List.take_prefix _ _)) outside
        · obtain ⟨entry, there, rfl⟩ := List.mem_map.mp inside
          exact ⟨entry, there, beq_self_eq_true _⟩
  · rintro ⟨node, found⟩
    exact mem_places found

/-- Whether a tree is well-formed can be told from the places of its nodes. -/
theorem well_formed_iff : tree.WellFormed ↔ (tree.nodes.map (·.1)).Nodup ∧
    ∀ place ∈ tree.places,
      (∀ name ∈ place, Path.IsEntryName name) ∧ tree.isDirectory place.dropLast = true := by
  constructor
  · intro formed
    refine ⟨formed.distinct, ?_⟩
    intro place member
    obtain ⟨node, found⟩ := mem_places_iff.mp member
    refine ⟨formed.named place node found, ?_⟩
    rcases List.eq_nil_or_concat' place with rfl | ⟨front, name, rfl⟩
    · simp [isDirectory, node?]
    · rw [List.dropLast_concat]
      exact formed.parents front name node found
  · rintro ⟨distinct, checked⟩
    refine ⟨distinct, fun place node found => (checked place (mem_places found)).1, ?_⟩
    intro place name node found
    have parent := (checked _ (mem_places found)).2
    rwa [List.dropLast_concat] at parent

instance : Decidable tree.WellFormed := decidable_of_iff' _ well_formed_iff

theorem mem_names : name ∈ tree.names place ↔ ∃ node, tree.node? (place ++ [name]) = some node := by
  rw [names, List.mem_mergeSort, List.mem_eraseDups, List.mem_filterMap, ← mem_places_iff]
  constructor
  · rintro ⟨other, member, kept⟩
    split at kept
    · next above =>
        obtain ⟨front, rfl⟩ := List.getLast?_eq_some_iff.mp kept
        rw [List.dropLast_concat] at above
        rwa [above] at member
    · cases kept
  · intro member
    exact ⟨place ++ [name], member, by simp⟩

theorem names_strict (tree : FileTree) (place : Place) : (tree.names place).Pairwise (· < ·) :=
  Build.sorted_strict (nodup_erase_dups _)

theorem is_entry_name_of_mem_names (formed : tree.WellFormed) (member : name ∈ tree.names place) :
    Path.IsEntryName name := by
  obtain ⟨node, found⟩ := mem_names.mp member
  exact formed.named _ node found name (List.mem_append_right _ List.mem_cons_self)

/-! Located paths. -/

theorem start_of_segments {first : List Char} {more : List (List Char)} (here : Place)
    (pieces : path.segments = first :: more) (some : first = [] → more ≠ []) :
    start here path = if first = [] then ([], more) else (here, first :: more) := by
  unfold start
  rw [pieces]
  by_cases root : first = []
  · obtain ⟨next, rest, rfl⟩ := List.exists_cons_of_ne_nil (some root)
    rw [root]
    rfl
  · rw [if_neg root]
    split
    · next shape => exact absurd (List.cons.inj shape).1 root
    · rfl

theorem locate_of_start {origin : Place} {segments : List (List Char)} (written : path.text ≠ "")
    (begun : start tree.workingDirectory path = (origin, segments)) :
    tree.locate path = tree.follow linkLimit origin segments := by
  rw [locate, if_neg written, begun]

section Join

variable (written : path.text ≠ "") (entry : Path.IsEntryName name)

include written entry

/-- The way of a joined path goes over that of the path, if this leads to a directory. -/
theorem exists_way_join : ∃ origin leading,
    start tree.workingDirectory (path.join name) = (origin, leading ++ [name.toList]) ∧
      ∀ place, tree.isDirectory place = true →
        (tree.locate path = .ok place ↔ tree.follow linkLimit origin leading = .ok place) := by
  obtain ⟨first, more, joined, own⟩ := Path.exists_segments_join written entry
  have begun := start_of_segments tree.workingDirectory joined (by simp)
  have begins : ∃ origin leading,
      start tree.workingDirectory (path.join name) = (origin, leading ++ [name.toList]) ∧
        (start tree.workingDirectory path = (origin, leading) ∨
          start tree.workingDirectory path = (origin, leading ++ [[]])) := by
    refine ⟨if first = [] then [] else tree.workingDirectory,
      if first = [] then more else first :: more, ?_, ?_⟩
    · rw [begun]
      split <;> rfl
    · rcases own with ⟨pieces, some⟩ | pieces
      · rw [start_of_segments _ pieces some]
        refine .inl ?_
        split <;> rfl
      · rw [start_of_segments _ pieces (by simp)]
        refine .inr ?_
        split <;> rfl
  obtain ⟨origin, leading, joins, starts⟩ := begins
  refine ⟨origin, leading, joins, ?_⟩
  intro place directory
  rcases starts with plain | ended
  · rw [locate_of_start written plain]
  · -- A slash at the end is passed over behind a directory.
    rw [locate_of_start written ended]
    cases followed : tree.follow linkLimit origin leading with
    | error fault => rw [follow_append_error followed]
    | ok reached =>
        obtain ⟨left, same⟩ := follow_append followed [[]]
        have idle : Path.isIdle [] = true := rfl
        rw [same, follow, follow]
        by_cases passable : tree.isDirectory reached = true
        · rw [if_pos passable, if_pos idle]
        · rw [if_neg passable, Except.ok.injEq]
          constructor
          · intro impossible
            cases impossible
          · rintro rfl
            exact absurd directory passable

theorem locate_join {node : Node} (located : tree.locate path = .ok place)
    (directory : tree.isDirectory place = true)
    (found : tree.node? (place ++ [name]) = some node) (plain : ∀ target, node ≠ .link target) :
    tree.locate (path.join name) = .ok (place ++ [name]) := by
  obtain ⟨origin, leading, begun, way⟩ := @exists_way_join tree _ _ written entry
  obtain ⟨left, same⟩ := follow_append ((way place directory).mp located) [name.toList]
  rw [locate_of_start (Path.join_written written entry) begun, same]
  simp [follow, directory, entry.proper.busy, entry.downward, found]

/-- A joined path that leads somewhere names an entry of a directory. -/
theorem mem_names_of_locate_join {target : Place}
    (located : tree.locate (path.join name) = .ok target) :
    ∃ place, tree.locate path = .ok place ∧ tree.isDirectory place = true ∧
      name ∈ tree.names place := by
  obtain ⟨origin, leading, begun, way⟩ := @exists_way_join tree _ _ written entry
  rw [locate_of_start (Path.join_written written entry) begun] at located
  cases followed : tree.follow linkLimit origin leading with
  | error fault => simp [follow_append_error followed] at located
  | ok place =>
      obtain ⟨left, same⟩ := follow_append followed [name.toList]
      simp only [same, follow, entry.proper.busy, entry.downward, Bool.false_eq_true, if_false,
        String.ofList_toList] at located
      split at located
      · next directory =>
          refine ⟨place, (way place directory).mpr followed, directory, ?_⟩
          rw [mem_names]
          cases found : tree.node? (place ++ [name]) with
          | none => simp [found] at located
          | some node => exact ⟨node, rfl⟩
      · cases located

/-- Paths to one directory lead to the same places below it. -/
theorem locate_join_agree {other : Path} {first second : Place} (begun : other.text ≠ "")
    (located : tree.locate path = .ok place) (there : tree.locate other = .ok place)
    (directory : tree.isDirectory place = true) (leads : tree.locate (path.join name) = .ok first)
    (led : tree.locate (other.join name) = .ok second) : first = second := by
  obtain ⟨origin, leading, starts, way⟩ := @exists_way_join tree _ _ written entry
  obtain ⟨source, front, begins, reach⟩ := @exists_way_join tree _ _ begun entry
  obtain ⟨left, same⟩ := follow_append ((way place directory).mp located) [name.toList]
  obtain ⟨fewer, alike⟩ := follow_append ((reach place directory).mp there) [name.toList]
  rw [locate_of_start (Path.join_written written entry) starts, same] at leads
  rw [locate_of_start (Path.join_written begun entry) begins, alike] at led
  have leads := follow_more_links leads (Nat.le_max_left left fewer)
  have led := follow_more_links led (Nat.le_max_right left fewer)
  rw [leads] at led
  exact Except.ok.inj led

end Join

end FileTree

end FortranDeps

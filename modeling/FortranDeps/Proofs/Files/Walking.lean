import FortranDeps.Files.Walk
import FortranDeps.Proofs.Files.Descent

/-!
The walk over a file tree. What it finds below a directory is what it finds at each of the names,
in order: the file there, or what is below the directory there, whether a link leads to it or not.
So it finds the files to which names lead from the start, each once, in the order of these names.
-/

namespace FortranDeps.FileTree

open FortranDeps.Path (IsEntryName)

/-! One name. -/

/-- What is found at one name of a directory. -/
def visit (tree : FileTree) (ancestors : List Ancestor) (place : Place) (path : Path)
    (relative : List String) (name : String) : Except WalkFault (List Found) :=
  let inner := place ++ [name]
  let innerPath := path.join name
  let innerRelative := relative ++ [name]
  match tree.node? inner with
  | none => .ok []
  | some (.file _) => .ok [⟨innerPath, innerRelative⟩]
  | some .directory =>
      tree.walkNames ((inner, innerPath) :: ancestors) inner innerPath innerRelative
        (tree.names inner)
  | some (.link _) =>
      match tree.locate innerPath with
      | .error fault => .error (.access innerPath fault)
      | .ok target =>
          match tree.node? target with
          | some .directory =>
              match ancestors.find? (·.1 == target) with
              | some (_, ancestor) => .error (.loop innerPath ancestor)
              | none =>
                  tree.walkNames ((target, innerPath) :: ancestors) target innerPath innerRelative
                    (tree.names target)
          | some _ => .ok [⟨innerPath, innerRelative⟩]
          | none => .ok []

theorem walk_names_cons (tree : FileTree) (ancestors : List Ancestor) (place : Place) (path : Path)
    (relative : List String) (name : String) (rest : List String) :
    tree.walkNames ancestors place path relative (name :: rest) = (do
      let met ← tree.visit ancestors place path relative name
      let later ← tree.walkNames ancestors place path relative rest
      return met ++ later) := by
  rw [walkNames]
  congr 1
  unfold visit
  simp only
  split
  · next absent => simp only [absent]
  · next found => simp only [found]
  · next found => simp only [found]
  · next found =>
      simp only [found]
      cases tree.locate (path.join name) with
      | error fault => rfl
      | ok target =>
          simp only
          split
          · next directory =>
              simp only [directory]
              split
              · next met => simp only [met]
              · next fresh => simp only [fresh]
          · next node plain stands =>
              rw [stands]
              cases node with
              | directory => exact absurd rfl plain
              | file content => rfl
              | link other => rfl
          · next absent => simp only [absent]

variable {tree : FileTree} {ancestors : List Ancestor} {place : Place} {path : Path}
  {relative names : List String} {name : String} {found : List Found}

theorem walk_names_cons_eq_ok {rest : List String} :
    tree.walkNames ancestors place path relative (name :: rest) = .ok found ↔
      ∃ met later, tree.visit ancestors place path relative name = .ok met ∧
        tree.walkNames ancestors place path relative rest = .ok later ∧ found = met ++ later := by
  rw [walk_names_cons]
  cases tree.visit ancestors place path relative name with
  | error fault => simp [bind, Except.bind]
  | ok met =>
      cases tree.walkNames ancestors place path relative rest with
      | error fault => simp [bind, Except.bind]
      | ok later => simp [bind, Except.bind, pure, Except.pure, eq_comm]

/-- The ways in which one name is visited: nothing can be reached under it, or a file, or a
directory, which is walked unless it is being visited already. -/
inductive Visited (tree : FileTree) (ancestors : List Ancestor) (place : Place) (path : Path)
    (relative : List String) (name : String) : Except WalkFault (List Found) → Prop where
  | broken {fault : AccessFault} (located : tree.locate (path.join name) = .error fault) :
      Visited tree ancestors place path relative name (.error (.access (path.join name) fault))
  | file {target : Place} (located : tree.locate (path.join name) = .ok target)
      (holds : tree.HoldsFile target) :
      Visited tree ancestors place path relative name (.ok [⟨path.join name, relative ++ [name]⟩])
  | directory {target : Place} (located : tree.locate (path.join name) = .ok target)
      (directory : tree.isDirectory target = true)
      (fresh : target = place ++ [name] ∨ ancestors.find? (·.1 == target) = none) :
      Visited tree ancestors place path relative name
        (tree.walkNames ((target, path.join name) :: ancestors) target (path.join name)
          (relative ++ [name]) (tree.names target))
  | loop {target : Place} {ancestor : Ancestor}
      (located : tree.locate (path.join name) = .ok target)
      (directory : tree.isDirectory target = true)
      (visiting : ancestors.find? (·.1 == target) = some ancestor) :
      Visited tree ancestors place path relative name (.error (.loop (path.join name) ancestor.2))

theorem visited (formed : tree.WellFormed) (written : path.text ≠ "")
    (located : tree.locate path = .ok place) (directory : tree.isDirectory place = true)
    (ancestors : List Ancestor) (relative : List String) (inside : name ∈ tree.names place) :
    tree.Visited ancestors place path relative name
      (tree.visit ancestors place path relative name) := by
  have entry := is_entry_name_of_mem_names formed inside
  obtain ⟨node, found⟩ := mem_names.mp inside
  have joined (plain : ∀ target, node ≠ .link target) :=
    locate_join written entry located directory found plain
  unfold visit
  simp only [found]
  cases node with
  | file content => exact .file (joined (by simp)) ⟨content, found⟩
  | directory => exact .directory (joined (by simp)) (is_directory_iff.mpr found) (.inl rfl)
  | link link =>
      cases led : tree.locate (path.join name) with
      | error fault => exact .broken led
      | ok target =>
          rcases stands_of_locate formed led with ⟨content, file⟩ | inner
          · simp only [file]
            exact .file led ⟨content, file⟩
          · simp only [is_directory_iff.mp inner]
            cases visiting : ancestors.find? (·.1 == target) with
            | some ancestor => exact .loop led inner visiting
            | none => exact .directory led inner (.inr visiting)

/-! Walks that succeed. -/

/-- The walk over names of the directory that a path leads to: what it finds at each of them. -/
inductive Walk (tree : FileTree) : Path → List String → List String → List Found → Prop where
  | nil {path : Path} {relative : List String} : Walk tree path relative [] []
  | file {path : Path} {relative : List String} {name : String} {rest : List String}
      {later : List Found} {target : Place} (located : tree.locate (path.join name) = .ok target)
      (holds : tree.HoldsFile target) (others : Walk tree path relative rest later) :
      Walk tree path relative (name :: rest) (⟨path.join name, relative ++ [name]⟩ :: later)
  | directory {path : Path} {relative : List String} {name : String} {rest : List String}
      {met later : List Found} {target : Place}
      (located : tree.locate (path.join name) = .ok target)
      (directory : tree.isDirectory target = true)
      (inside : Walk tree (path.join name) (relative ++ [name]) (tree.names target) met)
      (others : Walk tree path relative rest later) :
      Walk tree path relative (name :: rest) (met ++ later)

theorem walk_of_walk_names (formed : tree.WellFormed) (written : path.text ≠ "")
    (located : tree.locate path = .ok place) (directory : tree.isDirectory place = true)
    (inside : names ⊆ tree.names place)
    (walked : tree.walkNames ancestors place path relative names = .ok found) :
    tree.Walk path relative names found := by
  induction ancestors, place, path, relative, names using walkNames.induct tree
    generalizing found with
  | case1 ancestors place path relative =>
      rw [walkNames] at walked
      cases walked
      exact .nil
  | case2 ancestors place path relative name rest inner innerPath innerRelative below linked =>
      rename_i remaining
      obtain ⟨member, others⟩ := List.cons_subset.mp inside
      obtain ⟨met, later, visit, walk, rfl⟩ := walk_names_cons_eq_ok.mp walked
      have behind := remaining written located directory others walk
      have joined := Path.join_written written (is_entry_name_of_mem_names formed member)
      have step := visited formed written located directory ancestors relative member
      generalize tree.visit ancestors place path relative name = result at visit step
      cases step with
      | broken | loop => cases visit
      | file led holds =>
          cases visit
          exact .file led holds behind
      | directory led isDirectory fresh =>
          refine .directory led isDirectory ?_ behind
          have there := is_directory_iff.mp isDirectory
          rcases fresh with rfl | fresh
          · exact below there joined led isDirectory (List.Subset.refl _) visit
          · exact linked _ there fresh joined led isDirectory (List.Subset.refl _) visit

/-! What is found. -/

/-- A file to which names lead from a path, which other names have led to. -/
def IsBelow (tree : FileTree) (path : Path) (relative : List String) (file : Found) : Prop :=
  ∃ names, (∀ name ∈ names, IsEntryName name) ∧ file = ⟨path.descend names, relative ++ names⟩ ∧
    tree.isFile (path.descend names) = true

/-- Names that lead somewhere over a name begin at an entry of a directory. -/
theorem exists_directory_of_descend {target : Place} (written : path.text ≠ "")
    (entries : ∀ other ∈ name :: names, IsEntryName other)
    (located : tree.locate (path.descend (name :: names)) = .ok target) :
    ∃ place, tree.locate path = .ok place ∧ tree.isDirectory place = true ∧
      name ∈ tree.names place := by
  induction names using List.reverseRecOn generalizing target with
  | nil => exact mem_names_of_locate_join written (entries name List.mem_cons_self) located
  | append_singleton names last induction =>
      rw [← List.cons_append] at entries located
      obtain ⟨initial, ends⟩ := List.forall_mem_append.mp entries
      rw [Path.descend_append] at located
      obtain ⟨place, led, -⟩ := mem_names_of_locate_join (Path.descend_written written initial)
        (ends last List.mem_cons_self) located
      exact induction initial led

/-- No names lead anywhere from a file. -/
theorem names_eq_nil_of_file {target : Place} (written : path.text ≠ "")
    (located : tree.locate path = .ok target) (holds : tree.HoldsFile target)
    (entries : ∀ name ∈ names, IsEntryName name)
    (led : tree.locate (path.descend names) = .ok place) : names = [] := by
  cases names with
  | nil => rfl
  | cons name rest =>
      obtain ⟨here, own, directory, -⟩ := exists_directory_of_descend written entries led
      obtain ⟨content, found⟩ := holds
      rw [located] at own
      cases own
      rw [is_directory_iff, found] at directory
      cases directory

/-- A file is the only one below it. -/
theorem is_below_of_file {target : Place} {file : Found} (written : path.text ≠ "")
    (located : tree.locate path = .ok target) (holds : tree.HoldsFile target) :
    tree.IsBelow path relative file ↔ file = ⟨path, relative⟩ := by
  constructor
  · rintro ⟨names, entries, rfl, isFile⟩
    obtain ⟨place, led, -⟩ := is_file_iff_holds_file.mp isFile
    obtain rfl := names_eq_nil_of_file written located holds entries led
    rw [List.append_nil]
    rfl
  · rintro rfl
    refine ⟨[], List.forall_mem_nil _, ?_, is_file_iff_holds_file.mpr ⟨target, located, holds⟩⟩
    rw [List.append_nil]
    rfl

/-- What is below a directory is below one of its names. -/
theorem is_below_of_directory {target : Place} {file : Found} (formed : tree.WellFormed)
    (written : path.text ≠ "") (located : tree.locate path = .ok target)
    (directory : tree.isDirectory target = true) :
    tree.IsBelow path relative file ↔
      ∃ name ∈ tree.names target, tree.IsBelow (path.join name) (relative ++ [name]) file := by
  constructor
  · rintro ⟨names, entries, rfl, isFile⟩
    obtain ⟨place, led, content, found⟩ := is_file_iff_holds_file.mp isFile
    cases names with
    | nil =>
        rw [Path.descend, List.foldl_nil, located] at led
        cases led
        rw [is_directory_iff, found] at directory
        cases directory
    | cons name rest =>
        obtain ⟨here, own, -, member⟩ := exists_directory_of_descend written entries led
        rw [located] at own
        cases own
        refine ⟨name, member, rest, (List.forall_mem_cons.mp entries).2, ?_, isFile⟩
        rw [List.append_assoc]
        rfl
  · rintro ⟨name, member, names, entries, rfl, isFile⟩
    refine ⟨name :: names, List.forall_mem_cons.mpr ⟨?_, entries⟩, ?_, isFile⟩
    · exact is_entry_name_of_mem_names formed member
    · rw [List.append_assoc]
      rfl

/-- A walk finds the files below its names. -/
theorem Walk.mem_iff (formed : tree.WellFormed) (walk : tree.Walk path relative names found)
    (written : path.text ≠ "") (entries : ∀ name ∈ names, IsEntryName name) (file : Found) :
    file ∈ found ↔ ∃ name ∈ names, tree.IsBelow (path.join name) (relative ++ [name]) file := by
  induction walk with
  | nil => simp
  | file located holds others induction =>
      obtain ⟨entry, behind⟩ := List.forall_mem_cons.mp entries
      rw [List.mem_cons, induction written behind, List.exists_mem_cons_iff,
        is_below_of_file (Path.join_written written entry) located holds]
  | directory located directory inside others below induction =>
      obtain ⟨entry, behind⟩ := List.forall_mem_cons.mp entries
      have joined := Path.join_written written entry
      rw [List.mem_append, induction written behind, List.exists_mem_cons_iff,
        is_below_of_directory formed joined located directory,
        below joined fun name => is_entry_name_of_mem_names formed]

theorem Walk.relative_eq (walk : tree.Walk path relative names found) :
    ∀ file ∈ found, ∃ name ∈ names, ∃ more, file.relative = relative ++ name :: more := by
  induction walk with
  | nil => exact List.forall_mem_nil _
  | @file _ _ name rest _ _ _ _ _ induction =>
      intro file member
      rcases List.mem_cons.mp member with rfl | later
      · exact ⟨name, List.mem_cons_self, [], rfl⟩
      · obtain ⟨other, there, more, same⟩ := induction file later
        exact ⟨other, List.mem_cons_of_mem _ there, more, same⟩
  | @directory _ _ name rest _ _ _ _ _ _ _ below induction =>
      intro file member
      rcases List.mem_append.mp member with inside | later
      · obtain ⟨other, -, more, same⟩ := below file inside
        refine ⟨name, List.mem_cons_self, other :: more, ?_⟩
        rw [same, List.append_assoc, List.singleton_append]
      · obtain ⟨other, there, more, same⟩ := induction file later
        exact ⟨other, List.mem_cons_of_mem _ there, more, same⟩

/-- A walk over ascending names finds files in the order of the names that lead to them. -/
theorem Walk.ascending (walk : tree.Walk path relative names found)
    (ascending : names.Pairwise (· < ·)) :
    found.Pairwise fun first second => first.relative < second.relative := by
  -- What is found at a name stands before what is found at greater ones.
  have apart {relative rest : List String} {name : String} {path : Path} {later : List Found}
      (least : ∀ other ∈ rest, name < other) (others : tree.Walk path relative rest later)
      (more : List String) : ∀ file ∈ later, relative ++ name :: more < file.relative := by
    intro file member
    obtain ⟨other, there, behind, same⟩ := others.relative_eq file member
    rw [same]
    exact List.append_left_lt (.rel (least other there))
  induction walk with
  | nil => exact .nil
  | file _ _ others induction =>
      obtain ⟨least, remaining⟩ := List.pairwise_cons.mp ascending
      exact List.pairwise_cons.mpr ⟨apart least others [], induction remaining⟩
  | directory _ _ inside others below induction =>
      obtain ⟨least, remaining⟩ := List.pairwise_cons.mp ascending
      refine List.pairwise_append.mpr ⟨below (tree.names_strict _), induction remaining, ?_⟩
      intro file member other later
      obtain ⟨first, -, more, same⟩ := inside.relative_eq file member
      rw [same, List.append_assoc, List.singleton_append]
      exact apart least others (first :: more) other later

/-! When a walk succeeds. -/

/-- The directory that a path leads to has an entry of a name. -/
def HasEntry (tree : FileTree) (path : Path) (name : String) : Prop :=
  ∃ place, tree.locate path = .ok place ∧ tree.isDirectory place = true ∧ name ∈ tree.names place

/-- Every entry below a path leads somewhere: it is no link without a target. -/
def Unbroken (tree : FileTree) (root : Path) : Prop :=
  ∀ names name, (∀ other ∈ names, IsEntryName other) → tree.HasEntry (root.descend names) name →
    ∃ target, tree.locate ((root.descend names).join name) = .ok target

/-- No way down from a path leads back to a directory that it has come through. -/
def Loopless (tree : FileTree) (root : Path) : Prop :=
  ∀ names more place, (∀ name ∈ names ++ more, IsEntryName name) → more ≠ [] →
    tree.locate (root.descend names) = .ok place → tree.isDirectory place = true →
      tree.locate (root.descend (names ++ more)) ≠ .ok place

/-- Where no link is broken and no way leads back, the walk goes through to its end. The directories
that are being visited are those that the way down has come through. -/
theorem exists_walk_names {root : Path} (formed : tree.WellFormed) (begun : root.text ≠ "")
    (unbroken : tree.Unbroken root) (loopless : tree.Loopless root)
    (way : path = root.descend relative) (entries : ∀ name ∈ relative, IsEntryName name)
    (located : tree.locate path = .ok place) (directory : tree.isDirectory place = true)
    (inside : names ⊆ tree.names place)
    (above : ∀ ancestor ∈ ancestors, ∃ earlier, earlier <+: relative ∧
      tree.locate (root.descend earlier) = .ok ancestor.1) :
    ∃ found, tree.walkNames ancestors place path relative names = .ok found := by
  induction ancestors, place, path, relative, names using walkNames.induct tree with
  | case1 ancestors place path relative => exact ⟨[], by rw [walkNames]⟩
  | case2 ancestors place path relative name rest inner innerPath innerRelative below linked =>
      rename_i remaining
      obtain ⟨member, others⟩ := List.cons_subset.mp inside
      obtain ⟨later, walk⟩ := remaining way entries located directory others above
      have written : path.text ≠ "" := by
        rw [way]
        exact Path.descend_written begun entries
      have entry := is_entry_name_of_mem_names formed member
      have deeper : ∀ other ∈ relative ++ [name], IsEntryName other :=
        List.forall_mem_append.mpr ⟨entries, List.forall_mem_singleton.mpr entry⟩
      have joined : path.join name = root.descend (relative ++ [name]) := by
        rw [Path.descend_append, ← way]
        rfl
      have step := visited formed written located directory ancestors relative member
      rw [walk_names_cons]
      generalize tree.visit ancestors place path relative name = result at step
      cases step with
      | broken led =>
          obtain ⟨target, there⟩ := unbroken relative name entries
            ⟨place, way ▸ located, directory, member⟩
          rw [← way, led] at there
          cases there
      | file led holds =>
          rw [walk]
          exact ⟨_, rfl⟩
      | @directory target led isDirectory fresh =>
          have visiting : ∀ ancestor ∈ (target, path.join name) :: ancestors, ∃ earlier,
              earlier <+: relative ++ [name] ∧
                tree.locate (root.descend earlier) = .ok ancestor.1 := by
            intro ancestor known
            rcases List.mem_cons.mp known with rfl | known
            · exact ⟨relative ++ [name], List.prefix_refl _, joined ▸ led⟩
            · obtain ⟨earlier, short, leads⟩ := above ancestor known
              exact ⟨earlier, short.trans (List.prefix_append _ _), leads⟩
          have there := is_directory_iff.mp isDirectory
          have walked : ∃ met, tree.walkNames ((target, path.join name) :: ancestors) target
              (path.join name) (relative ++ [name]) (tree.names target) = .ok met := by
            rcases fresh with rfl | fresh
            · exact below there joined deeper led isDirectory (List.Subset.refl _) visiting
            · exact linked target there fresh joined deeper led isDirectory (List.Subset.refl _)
                visiting
          obtain ⟨met, walked⟩ := walked
          rw [walked, walk]
          exact ⟨_, rfl⟩
      | @loop target ancestor led isDirectory visiting =>
          obtain ⟨earlier, short, leads⟩ := above ancestor (List.mem_of_find?_eq_some visiting)
          have same := List.find?_some visiting
          rw [beq_iff_eq] at same
          obtain ⟨more, rfl⟩ := short
          rw [same] at leads
          rw [List.append_assoc] at deeper joined
          have onward : more ++ [name] ≠ [] := by simp
          refine absurd ?_ (loopless earlier _ target deeper onward leads isDirectory)
          rw [← joined, led]

theorem Unbroken.of_file {target : Place} (written : path.text ≠ "")
    (located : tree.locate path = .ok target) (holds : tree.HoldsFile target) :
    tree.Unbroken path := by
  intro names name entries ⟨place, led, directory, _⟩
  obtain rfl := names_eq_nil_of_file written located holds entries led
  obtain ⟨content, found⟩ := holds
  rw [Path.descend, List.foldl_nil, located] at led
  cases led
  rw [is_directory_iff, found] at directory
  cases directory

theorem Unbroken.of_directory (written : path.text ≠ "") (located : tree.locate path = .ok place)
    (inside : ∀ name ∈ tree.names place, (∃ target, tree.locate (path.join name) = .ok target) ∧
      tree.Unbroken (path.join name)) : tree.Unbroken path := by
  intro names name entries entry
  cases names with
  | nil =>
      obtain ⟨here, own, -, member⟩ := entry
      rw [Path.descend, List.foldl_nil, located] at own
      cases own
      exact (inside name member).1
  | cons first rest =>
      obtain ⟨here, led, -, -⟩ := id entry
      obtain ⟨start, own, -, member⟩ := exists_directory_of_descend written entries led
      rw [located] at own
      cases own
      exact (inside first member).2 rest name (List.forall_mem_cons.mp entries).2 entry

theorem Loopless.of_file {target : Place} (written : path.text ≠ "")
    (located : tree.locate path = .ok target) (holds : tree.HoldsFile target) :
    tree.Loopless path := by
  intro names more place entries some _ _ back
  have nothing := names_eq_nil_of_file written located holds entries back
  exact some (List.append_eq_nil_iff.mp nothing).2

/-- A way from a directory back to it leads from its first name back to where that one leads. -/
theorem Loopless.of_directory (formed : tree.WellFormed) (written : path.text ≠ "")
    (located : tree.locate path = .ok place) (unbroken : tree.Unbroken path)
    (inside : ∀ name ∈ tree.names place, tree.Loopless (path.join name)) : tree.Loopless path := by
  intro names more back entries some led directory again
  have deeper {name : String} {rest : List String} {target : Place}
      (led : tree.locate (path.descend (name :: rest)) = .ok target)
      (entries : ∀ other ∈ name :: rest, IsEntryName other) : name ∈ tree.names place := by
    obtain ⟨here, own, -, member⟩ := exists_directory_of_descend written entries led
    rw [located] at own
    cases own
    exact member
  cases names with
  | cons name rest =>
      exact inside name (deeper led (List.forall_mem_append.mp entries).1) rest more back
        (List.forall_mem_cons.mp entries).2 some led directory again
  | nil =>
      rw [Path.descend, List.foldl_nil, located] at led
      cases led
      rw [List.nil_append] at entries again
      obtain ⟨name, rest, rfl⟩ := List.exists_cons_of_ne_nil some
      have member := deeper again entries
      obtain ⟨entry, behind⟩ := List.forall_mem_cons.mp entries
      obtain ⟨target, first⟩ := unbroken [] name (List.forall_mem_nil _)
        ⟨place, located, directory, member⟩
      obtain ⟨other, second⟩ := unbroken (name :: rest) name entries
        ⟨place, again, directory, member⟩
      obtain rfl : target = other := locate_join_agree written entry
        (Path.descend_written written entries) located again directory first second
      have turned : tree.locate ((path.join name).descend (rest ++ [name])) = .ok target := by
        rw [Path.descend_append]
        exact second
      have names : ∀ other ∈ rest ++ [name], IsEntryName other :=
        List.forall_mem_append.mpr ⟨behind, List.forall_mem_singleton.mpr entry⟩
      have joined := Path.join_written written entry
      rcases stands_of_locate formed first with file | isDirectory
      · have nothing := names_eq_nil_of_file joined first file names turned
        simp at nothing
      · exact inside name member [] (rest ++ [name]) target names (by simp) first isDirectory turned

theorem passable_of_directory (formed : tree.WellFormed) (written : path.text ≠ "")
    (located : tree.locate path = .ok place)
    (inside : ∀ name ∈ tree.names place, (∃ target, tree.locate (path.join name) = .ok target) ∧
      tree.Unbroken (path.join name) ∧ tree.Loopless (path.join name)) :
    tree.Unbroken path ∧ tree.Loopless path := by
  have unbroken : tree.Unbroken path := .of_directory written located fun name member =>
    ⟨(inside name member).1, (inside name member).2.1⟩
  exact ⟨unbroken, .of_directory formed written located unbroken fun name member =>
    (inside name member).2.2⟩

/-- A walk that goes through to its end has met no broken link and no way back. -/
theorem Walk.passable (formed : tree.WellFormed) (walk : tree.Walk path relative names found)
    (written : path.text ≠ "") (entries : ∀ name ∈ names, IsEntryName name) :
    ∀ name ∈ names, (∃ target, tree.locate (path.join name) = .ok target) ∧
      tree.Unbroken (path.join name) ∧ tree.Loopless (path.join name) := by
  induction walk with
  | nil => exact List.forall_mem_nil _
  | file located holds others induction =>
      obtain ⟨entry, behind⟩ := List.forall_mem_cons.mp entries
      have joined := Path.join_written written entry
      exact List.forall_mem_cons.mpr ⟨⟨⟨_, located⟩, .of_file joined located holds,
        .of_file joined located holds⟩, induction written behind⟩
  | directory located directory inside others below induction =>
      obtain ⟨entry, behind⟩ := List.forall_mem_cons.mp entries
      have joined := Path.join_written written entry
      have passable := passable_of_directory formed joined located
        (below joined fun name => is_entry_name_of_mem_names formed)
      exact List.forall_mem_cons.mpr ⟨⟨⟨_, located⟩, passable⟩, induction written behind⟩

/-! Whole walks. -/

theorem written_of_locate (located : tree.locate path = .ok place) : path.text ≠ "" := by
  intro empty
  rw [locate, if_pos empty] at located
  cases located

theorem written_of_walk (walked : tree.walk path = .ok found) : path.text ≠ "" := by
  intro empty
  have missing : tree.locate path = .error .notFound := by rw [locate, if_pos empty]
  simp [walk, missing] at walked

theorem walk_of_file (located : tree.locate path = .ok place) (holds : tree.HoldsFile place) :
    tree.walk path = .ok [⟨path, []⟩] := by
  obtain ⟨content, file⟩ := holds
  unfold walk
  simp only [located, file]

theorem walk_of_directory (located : tree.locate path = .ok place)
    (directory : tree.isDirectory place = true) :
    tree.walk path = tree.walkNames [(place, path)] place path [] (tree.names place) := by
  unfold walk
  simp only [located, is_directory_iff.mp directory]

/-- A walk that succeeds finds the files below its root, in the order of the names that lead to
them. -/
theorem walk_eq_ok (formed : tree.WellFormed) (walked : tree.walk path = .ok found) :
    (∀ file, file ∈ found ↔ tree.IsBelow path [] file) ∧
      found.Pairwise fun first second => first.relative < second.relative := by
  cases located : tree.locate path with
  | error fault => simp [walk, located] at walked
  | ok place =>
      have written := written_of_locate located
      rcases stands_of_locate formed located with file | directory
      · rw [walk_of_file located file] at walked
        cases walked
        refine ⟨fun file' => ?_, List.pairwise_singleton _ _⟩
        rw [List.mem_singleton, is_below_of_file written located file]
      · rw [walk_of_directory located directory] at walked
        have walk := walk_of_walk_names formed written located directory (List.Subset.refl _) walked
        refine ⟨fun file => ?_, walk.ascending (tree.names_strict place)⟩
        rw [walk.mem_iff formed written fun name => is_entry_name_of_mem_names formed,
          is_below_of_directory formed written located directory]

/-- Only broken links and ways that lead back stop the walk. -/
theorem walk_succeeds_iff (formed : tree.WellFormed) : (∃ found, tree.walk path = .ok found) ↔
    (∃ place, tree.locate path = .ok place) ∧ tree.Unbroken path ∧ tree.Loopless path := by
  cases located : tree.locate path with
  | error fault => simp [walk, located]
  | ok place =>
      have written := written_of_locate located
      have reached : ∃ there, (.ok place : Except AccessFault Place) = .ok there := ⟨place, rfl⟩
      rw [iff_true_intro reached, true_and]
      rcases stands_of_locate formed located with file | directory
      · exact iff_of_true ⟨_, walk_of_file located file⟩
          ⟨.of_file written located file, .of_file written located file⟩
      · rw [walk_of_directory located directory]
        constructor
        · rintro ⟨found, walked⟩
          have walk := walk_of_walk_names formed written located directory (List.Subset.refl _)
            walked
          exact passable_of_directory formed written located
            (walk.passable formed written fun name => is_entry_name_of_mem_names formed)
        · rintro ⟨unbroken, loopless⟩
          refine exists_walk_names formed written unbroken loopless rfl (List.forall_mem_nil _)
            located directory (List.Subset.refl _) ?_
          intro ancestor known
          rw [List.mem_singleton] at known
          exact ⟨[], List.prefix_refl _, known ▸ located⟩

/-! Trees with the same nodes. -/

section Congruence

variable {other : FileTree}

/-- The same nodes stand at the same places, however they are listed. -/
structure SameNodes (tree other : FileTree) : Prop where
  workingDirectory : other.workingDirectory = tree.workingDirectory
  nodes : other.node? = tree.node?

theorem lookup_perm {first second : List (Place × Node)} (perm : first.Perm second)
    (distinct : (first.map (·.1)).Nodup) (place : Place) :
    second.lookup place = first.lookup place := by
  induction perm with
  | nil => rfl
  | cons entry _ induction =>
      rw [List.lookup_cons, List.lookup_cons, induction (List.nodup_cons.mp distinct).2]
  | swap entry next rest =>
      have apart : next.1 ≠ entry.1 := by
        have fresh := (List.nodup_cons.mp distinct).1
        rw [List.map_cons, List.mem_cons, not_or] at fresh
        exact fresh.1
      rw [List.lookup_cons, List.lookup_cons, List.lookup_cons, List.lookup_cons]
      by_cases own : place = entry.1
      · have different : (place == next.1) = false := beq_eq_false_iff_ne.mpr (own ▸ apart.symm)
        rw [different]
      · have different : (place == entry.1) = false := beq_eq_false_iff_ne.mpr own
        rw [different]
  | trans perm _ earlier later =>
      rw [later ((perm.map (·.1)).nodup_iff.mp distinct), earlier distinct]

/-- The nodes can be listed in any order. -/
theorem WellFormed.same_nodes (formed : tree.WellFormed) {nodes : List (Place × Node)}
    (perm : nodes.Perm tree.nodes) : tree.SameNodes { tree with nodes := nodes } where
  workingDirectory := rfl
  nodes := by
    funext place
    unfold node?
    rw [lookup_perm perm.symm formed.distinct]

theorem SameNodes.locate_eq (same : tree.SameNodes other) (path : Path) :
    other.locate path = tree.locate path := by
  unfold locate
  rw [same.workingDirectory]
  simp only [follow_congr same.nodes]

theorem SameNodes.names_eq (same : tree.SameNodes other) (place : Place) :
    other.names place = tree.names place := by
  have members : ∀ name, name ∈ other.names place ↔ name ∈ tree.names place := by
    intro name
    rw [mem_names, mem_names, same.nodes]
  have first := other.names_strict place
  have second := tree.names_strict place
  have perm : (other.names place).Perm (tree.names place) :=
    (List.perm_ext_iff_of_nodup (first.imp ne_of_lt) (second.imp ne_of_lt)).mpr members
  exact perm.eq_of_pairwise (fun name next _ _ less greater => absurd greater (lt_asymm less)) first
    second

theorem SameNodes.walk_names_eq (same : tree.SameNodes other) (ancestors : List Ancestor)
    (place : Place) (path : Path) (relative names : List String) :
    other.walkNames ancestors place path relative names =
      tree.walkNames ancestors place path relative names := by
  induction ancestors, place, path, relative, names using walkNames.induct tree with
  | case1 ancestors place path relative => rw [walkNames, walkNames]
  | case2 ancestors place path relative name rest inner innerPath innerRelative below linked =>
      rename_i remaining
      have visit : other.visit ancestors place path relative name =
          tree.visit ancestors place path relative name := by
        unfold visit
        simp only [same.nodes, same.locate_eq, same.names_eq]
        split
        · rfl
        · rfl
        · next found => exact below found
        · split
          · rfl
          · next target led =>
              split
              · next directory =>
                  split
                  · rfl
                  · next fresh => exact linked target directory fresh
              · rfl
              · rfl
      rw [walk_names_cons, walk_names_cons, visit, remaining]

theorem SameNodes.walk_eq (same : tree.SameNodes other) (path : Path) :
    other.walk path = tree.walk path := by
  unfold walk
  simp only [same.nodes, same.locate_eq, same.names_eq, same.walk_names_eq]

end Congruence

end FortranDeps.FileTree

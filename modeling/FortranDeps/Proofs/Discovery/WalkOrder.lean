import FortranDeps.Discovery
import FortranDeps.Proofs.Files.PathOrder
import FortranDeps.Proofs.Files.Walking
import FortranDeps.Proofs.Text.ByteOrder

/-!
The sources below a root. They are the files to which names lead from the root, with one of the
extensions and left out by no pattern, in the order of their components, where names are compared by
their bytes. In which order the file tree lists its nodes does not matter.
-/

namespace FortranDeps

namespace Component

/-- The order of components: by their kinds, and names by their bytes. -/
def PrecedesByBytes : Component → Component → Prop
  | normal first, normal second => Text.utf8 first.toList < Text.utf8 second.toList
  | first, second => first.rank < second.rank

end Component

/-- Component by component, and a path before those that go on behind it. -/
def Path.PrecedesByBytes (first second : Path) : Prop :=
  List.Lex Component.PrecedesByBytes first.components second.components

namespace Discovery

open FortranDeps.Path (IsEntryName)

variable {tree : FileTree} {extensions : List String} {ignore : List Glob.Pattern}
  {root path : Path} {names : List String}

/-- A regular file to which names lead from a root, with one of the extensions. No pattern leaves it
out, neither by the names nor by its own one. -/
def IsSource (tree : FileTree) (extensions : List String) (ignore : List Glob.Pattern)
    (root path : Path) : Prop :=
  ∃ names, (∀ name ∈ names, IsEntryName name) ∧ path = root.descend names ∧
    tree.isFile path = true ∧ (∃ extension ∈ extensions, path.extension = some extension) ∧
    ∀ pattern ∈ ignore,
      pattern.accepts (String.intercalate "/" names).toUTF8.toList = false ∧
      ∀ name, path.fileName = some name → pattern.accepts name.toUTF8.toList = false

theorem has_extension_iff : hasExtension extensions path = true ↔
    ∃ extension ∈ extensions, path.extension = some extension := by
  unfold hasExtension
  cases path.extension with
  | none => simp
  | some extension => simp

theorem is_ignored_eq_false_iff : isIgnored ignore ⟨path, names⟩ = false ↔
    ∀ pattern ∈ ignore,
      pattern.accepts (String.intercalate "/" names).toUTF8.toList = false ∧
      ∀ name, path.fileName = some name → pattern.accepts name.toUTF8.toList = false := by
  unfold isIgnored
  rw [List.any_eq_false]
  cases path.fileName with
  | none => simp
  | some name => simp

theorem walk_root_eq_ok {paths : List Path} : walkRoot tree extensions ignore root = .ok paths ↔
    ∃ found, tree.walk root = .ok found ∧
      paths = (found.filter fun file =>
        hasExtension extensions file.path && !isIgnored ignore file).map (·.path) := by
  unfold walkRoot
  cases tree.walk root with
  | error fault => cases fault <;> simp
  | ok found => simp [eq_comm]

/-- Names in ascending order lead to paths in ascending order. -/
theorem precedes_by_bytes_descend {first second : List String} (written : root.text ≠ "")
    (entries : ∀ name ∈ first, IsEntryName name) (others : ∀ name ∈ second, IsEntryName name)
    (less : first < second) : (root.descend first).PrecedesByBytes (root.descend second) := by
  have lex : List.Lex Component.PrecedesByBytes (first.map Component.normal)
      (second.map Component.normal) := by
    clear entries others
    induction less with
    | nil => exact .nil
    | cons _ induction => exact .cons induction
    | rel less => exact .rel (Text.lt_iff_utf8_lt.mp less)
  unfold Path.PrecedesByBytes
  rw [Path.components_descend written entries, Path.components_descend written others]
  exact List.Lex.append_left _ lex _

theorem walk_root_ascending (formed : tree.WellFormed) {paths : List Path}
    (walked : walkRoot tree extensions ignore root = .ok paths) :
    paths.Pairwise Path.PrecedesByBytes := by
  obtain ⟨found, walk, rfl⟩ := walk_root_eq_ok.mp walked
  obtain ⟨members, ascending⟩ := FileTree.walk_eq_ok formed walk
  rw [List.pairwise_map]
  refine (ascending.imp_of_mem ?_).filter _
  intro first second firstMember secondMember less
  obtain ⟨names, entries, rfl, -⟩ := (members first).mp firstMember
  obtain ⟨others, behind, rfl, -⟩ := (members second).mp secondMember
  exact precedes_by_bytes_descend (FileTree.written_of_walk walk) entries behind less

theorem mem_walk_root (formed : tree.WellFormed) {paths : List Path}
    (walked : walkRoot tree extensions ignore root = .ok paths) (path : Path) :
    path ∈ paths ↔ IsSource tree extensions ignore root path := by
  obtain ⟨found, walk, rfl⟩ := walk_root_eq_ok.mp walked
  obtain ⟨members, -⟩ := FileTree.walk_eq_ok formed walk
  simp only [List.mem_map, List.mem_filter, Bool.and_eq_true, Bool.not_eq_true', members]
  constructor
  · rintro ⟨file, ⟨⟨names, entries, rfl, isFile⟩, extension, kept⟩, rfl⟩
    exact ⟨names, entries, rfl, isFile, has_extension_iff.mp extension,
      is_ignored_eq_false_iff.mp kept⟩
  · rintro ⟨names, entries, rfl, isFile, extension, kept⟩
    exact ⟨⟨root.descend names, names⟩, ⟨⟨names, entries, rfl, isFile⟩,
      has_extension_iff.mpr extension, is_ignored_eq_false_iff.mpr kept⟩, rfl⟩

/-- The sources below a root are found unless the root leads nowhere, a link below it is broken or a
way below it leads back. They are the files below the root with the right extensions and names, in
strictly ascending order, and the order in which the tree lists its nodes has no influence. -/
theorem walk_order_is_canonical (formed : tree.WellFormed) (extensions : List String)
    (ignore : List Glob.Pattern) (root : Path) :
    ((∃ paths, walkRoot tree extensions ignore root = .ok paths) ↔
      (∃ place, tree.locate root = .ok place) ∧ tree.Unbroken root ∧ tree.Loopless root) ∧
    (∀ paths, walkRoot tree extensions ignore root = .ok paths →
      paths.Pairwise Path.PrecedesByBytes ∧
        ∀ path, path ∈ paths ↔ IsSource tree extensions ignore root path) ∧
    ∀ nodes, nodes.Perm tree.nodes →
      walkRoot { tree with nodes := nodes } extensions ignore root =
        walkRoot tree extensions ignore root := by
  refine ⟨?_, ?_, ?_⟩
  · rw [← FileTree.walk_succeeds_iff formed]
    constructor
    · rintro ⟨paths, walked⟩
      obtain ⟨found, walk, -⟩ := walk_root_eq_ok.mp walked
      exact ⟨found, walk⟩
    · rintro ⟨found, walk⟩
      exact ⟨_, walk_root_eq_ok.mpr ⟨found, walk, rfl⟩⟩
  · intro paths walked
    exact ⟨walk_root_ascending formed walked, mem_walk_root formed walked⟩
  · intro nodes perm
    unfold walkRoot
    rw [(formed.same_nodes perm).walk_eq]

/-! A directory with a file and a directory whose name is a beginning of that of the file, and with
a link to another directory. -/

def branching : FileTree where
  workingDirectory := []
  nodes := [(["src"], .directory), (["src", "a"], .directory),
    (["src", "a", "x.f90"], .file .empty), (["src", "a-b.f90"], .file .empty),
    (["src", "l"], .link "../lib"), (["lib"], .directory), (["lib", "y_old.f90"], .file .empty)]
  temporaries := []

/-- The glob of names that end like those of old files. -/
def oldFiles : Glob.Pattern :=
  .seq .anything (.sequence ("_old.f90".toUTF8.toList.map Glob.Pattern.byte))

theorem walk_branching : branching.walk ⟨"src"⟩ = .ok [⟨⟨"src/a/x.f90"⟩, ["a", "x.f90"]⟩,
    ⟨⟨"src/a-b.f90"⟩, ["a-b.f90"]⟩, ⟨⟨"src/l/y_old.f90"⟩, ["l", "y_old.f90"]⟩] := by
  have root : branching.locate ⟨"src"⟩ = .ok ["src"] := by cbv
  have link : branching.locate ⟨"src/l"⟩ = .ok ["lib"] := by cbv
  have linked : Path.join ⟨"src"⟩ "l" = ⟨"src/l"⟩ := rfl
  have entries : branching.names ["src"] = ["a", "a-b.f90", "l"] := by
    have listed : (branching.places.filterMap fun place =>
        if place.dropLast = ["src"] then place.getLast? else none).eraseDups =
          ["a", "a-b.f90", "l"] := rfl
    simp only [FileTree.names, listed]
    exact List.mergeSort_of_pairwise (by decide)
  have inner : branching.names ["src", "a"] = ["x.f90"] := by cbv
  have others : branching.names ["lib"] = ["y_old.f90"] := by cbv
  have source : branching.isDirectory ["src"] = true := rfl
  have library : branching.node? ["lib"] = some .directory := rfl
  have directory : branching.node? ["src", "a"] = some .directory := rfl
  have file : branching.node? ["src", "a-b.f90"] = some (.file .empty) := rfl
  have deeper : branching.node? ["src", "a", "x.f90"] = some (.file .empty) := rfl
  have target : branching.node? ["src", "l"] = some (.link "../lib") := rfl
  have old : branching.node? ["lib", "y_old.f90"] = some (.file .empty) := rfl
  rw [FileTree.walk_of_directory root source, entries]
  simp only [FileTree.walk_names_cons, FileTree.visit, FileTree.walkNames, List.cons_append,
    List.nil_append, directory, inner, deeper, file, target, linked, link, library, others, old]
  rfl

/-- The file in the directory comes first, although its path is the greater text, and the file
behind the link is left out. The reversed tree gives the same. -/
theorem branching_walked_in_order :
    branching.WellFormed ∧
      walkRoot branching ["f90"] [oldFiles] ⟨"src"⟩ = .ok [⟨"src/a/x.f90"⟩, ⟨"src/a-b.f90"⟩] ∧
      walkRoot { branching with nodes := branching.nodes.reverse } ["f90"] [oldFiles] ⟨"src"⟩ =
        .ok [⟨"src/a/x.f90"⟩, ⟨"src/a-b.f90"⟩] ∧
      branching.Unbroken ⟨"src"⟩ ∧ branching.Loopless ⟨"src"⟩ ∧
      ¬IsSource branching ["f90"] [oldFiles] ⟨"src"⟩ ⟨"src/l/y_old.f90"⟩ ∧
      Path.PrecedesByBytes ⟨"src/a/x.f90"⟩ ⟨"src/a-b.f90"⟩ := by
  have formed : branching.WellFormed := by decide
  have walked : walkRoot branching ["f90"] [oldFiles] ⟨"src"⟩ =
      .ok [⟨"src/a/x.f90"⟩, ⟨"src/a-b.f90"⟩] := by
    rw [walkRoot, walk_branching]
    decide +kernel
  obtain ⟨succeeds, sources, order⟩ := walk_order_is_canonical formed ["f90"] [oldFiles] ⟨"src"⟩
  obtain ⟨-, unbroken, loopless⟩ := succeeds.mp ⟨_, walked⟩
  obtain ⟨ascending, members⟩ := sources _ walked
  refine ⟨formed, walked, ?_, unbroken, loopless, ?_, ?_⟩
  · rw [order _ (List.reverse_perm _), walked]
  · rw [← members]
    decide
  · exact List.rel_of_pairwise_cons ascending List.mem_cons_self

end Discovery

end FortranDeps

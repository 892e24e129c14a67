import FortranDeps.Proofs.Discovery.Gathering
import FortranDeps.Proofs.Files.Spelling

/-!
The sources of a run as an ordered union. Paths without dots are equal if their components are, so
the sources are the listed or found ones, then those that always take part and were not there, then
excluded ones that were in neither list, each at its first occurrence. How the paths of a list are
spelled does not matter.
-/

namespace FortranDeps

namespace Path

theorem filter_distinct {keeps : Path → Bool} (paths : List Path)
    (alike : ∀ first second, first.same second = true → keeps first = keeps second) :
    (distinct paths).filter keeps = distinct (paths.filter keeps) := by
  induction paths with
  | nil => rfl
  | cons path rest induction =>
      rw [distinct, List.filter_cons, List.filter_cons]
      split
      · rw [distinct, ← induction, List.filter_comm]
      · next out =>
          rw [← induction, List.filter_filter]
          apply List.filter_congr
          intro other _
          cases same : other.same path with
          | false => simp
          | true => simp [alike other path same, out]

/-- Every path of a list is one that is written without dots. -/
def Dotless (paths : List Path) : Prop :=
  ∀ path ∈ paths, ∃ written : Path, written.withoutDots = path

theorem dotless_map_without_dots (paths : List Path) : Dotless (paths.map withoutDots) := by
  intro path member
  obtain ⟨written, -, same⟩ := List.mem_map.mp member
  exact ⟨written, same⟩

theorem Dotless.append {first second : List Path} (dotless : Dotless first)
    (others : Dotless second) : Dotless (first ++ second) := fun path member =>
  (List.mem_append.mp member).elim (dotless path) (others path)

theorem Dotless.eq_of_components {paths : List Path} (dotless : Dotless paths)
    {first second : Path} (member : first ∈ paths) (inside : second ∈ paths)
    (same : first.components = second.components) : first = second := by
  obtain ⟨own, rfl⟩ := dotless first member
  obtain ⟨other, rfl⟩ := dotless second inside
  exact without_dots_eq same

/-- Equal components mean equal paths there, so the distinct ones are the first occurrences. -/
theorem Dotless.distinct_eq_erase_dups {paths : List Path} (dotless : Dotless paths) :
    distinct paths = paths.eraseDups := by
  match paths with
  | [] => rfl
  | path :: rest =>
      have same : rest.filter (!·.same path) = rest.filter (!· == path) := by
        apply List.filter_congr
        intro other member
        congr 1
        rw [Bool.eq_iff_iff, same_iff, beq_iff_eq]
        constructor
        · exact dotless.eq_of_components (List.mem_cons_of_mem _ member) List.mem_cons_self
        · rintro rfl
          rfl
      have later : Dotless (rest.filter (!· == path)) := fun other member =>
        dotless other (List.mem_cons_of_mem _ (List.mem_filter.mp member).1)
      rw [List.eraseDups_cons, distinct, ← later.distinct_eq_erase_dups, ← same,
        filter_distinct rest]
      intro first second equal
      rw [same_iff] at equal
      unfold Path.same
      rw [equal]
termination_by paths.length
decreasing_by
  have fewer := List.length_filter_le (!· == path) rest
  simp only [List.length_cons]
  omega

theorem Dotless.any_same_iff {paths listed : List Path} (dotless : Dotless paths)
    (inside : listed ⊆ paths) {path : Path} (member : path ∈ paths) :
    listed.any (·.same path) = true ↔ path ∈ listed := by
  rw [Path.any_same_iff]
  constructor
  · intro known
    obtain ⟨other, there, same⟩ := List.mem_map.mp known
    rwa [dotless.eq_of_components (inside there) member same] at there
  · exact List.mem_map_of_mem

end Path

/-- Settings whose lists of paths differ only in how the paths are spelled. -/
structure DiscoverySettings.Respelled (settings other : DiscoverySettings) : Prop where
  files : List.Forall₂ Path.Respelled settings.files other.files
  alwaysInclude : List.Forall₂ Path.Respelled settings.alwaysInclude other.alwaysInclude
  exclude : List.Forall₂ Path.Respelled settings.exclude other.exclude
  roots : other.roots = settings.roots
  manifests : other.manifests = settings.manifests
  extensions : other.extensions = settings.extensions
  ignore : other.ignore = settings.ignore

namespace Discovery

open FortranDeps.Units (SourceFile)

/-- The sources that three lists of paths name, in order and with their marks. -/
structure OrderedUnion (listed always excluded : List Path) (found : List SourceFile) : Prop where
  distinct : found.Pairwise fun first second => first.path.components ≠ second.path.components
  order : found.map (·.path) = listed.eraseDups ++ (always.filter (· ∉ listed)).eraseDups ++
    (excluded.filter fun path => path ∉ listed ∧ path ∉ always).eraseDups
  excluded : ∀ source ∈ found, source.excluded = true ↔ source.path ∈ excluded
  always : ∀ source ∈ found, source.alwaysInclude = true ↔ source.path ∈ always

theorem gather_ordered_union {listed always excluded : List Path}
    (dotless : Path.Dotless (listed ++ always ++ excluded)) :
    OrderedUnion listed always excluded (gather listed always excluded) := by
  have whole : (gather listed always excluded).map (·.path) =
      (listed ++ always ++ excluded).eraseDups := by
    rw [paths_gather, dotless.distinct_eq_erase_dups]
  have named : ∀ source ∈ gather listed always excluded,
      source.path ∈ listed ++ always ++ excluded := by
    intro source member
    rw [← List.mem_eraseDups, ← whole]
    exact List.mem_map_of_mem member
  have marked := marked_gather listed always excluded
  constructor
  · have apart := apart_gather listed always excluded
    rw [Apart, List.map_map] at apart
    exact List.pairwise_map.mp apart
  · have fresh : always.removeAll listed = always.filter (· ∉ listed) := by
      apply List.filter_congr
      simp
    have left : excluded.removeAll (listed ++ always) =
        excluded.filter fun path => path ∉ listed ∧ path ∉ always := by
      apply List.filter_congr
      simp
    rw [whole, List.eraseDups_append, List.eraseDups_append, fresh, left]
  · intro source member
    rw [(marked source member).1]
    exact dotless.any_same_iff (List.subset_append_right _ _) (named source member)
  · intro source member
    rw [(marked source member).2]
    refine dotless.any_same_iff ?_ (named source member)
    intro path listed
    simp [listed]

/-! Spellings. -/

theorem map_without_dots_respelled {paths others : List Path}
    (respelled : List.Forall₂ Path.Respelled paths others) :
    others.map Path.withoutDots = paths.map Path.withoutDots := by
  induction respelled with
  | nil => rfl
  | cons first _ induction => rw [List.map_cons, List.map_cons, first.without_dots_eq, induction]

theorem discover_respelled {tree : FileTree} {settings other : DiscoverySettings}
    (respelled : settings.Respelled other) : discover tree other = discover tree settings := by
  have explicit : other.isExplicit = settings.isExplicit := by
    unfold DiscoverySettings.isExplicit
    rw [respelled.manifests]
    have empty := respelled.files.length_eq
    rw [Bool.eq_iff_iff]
    simp [← List.length_eq_zero_iff, empty]
  have files := map_without_dots_respelled respelled.files
  unfold discover candidates
  rw [explicit, respelled.manifests, respelled.ignore, respelled.roots, respelled.extensions,
    map_without_dots_respelled respelled.alwaysInclude,
    map_without_dots_respelled respelled.exclude]
  split
  · cases settings.manifests.mapM (readManifest tree) with
    | error fault => rfl
    | ok listed => simp [bind, Except.bind, pure, Except.pure, files]
  · rfl

/-- What is discovered is the ordered union of the candidates, the files that always take part and
the excluded ones, marked by the lists that name them, however their paths are spelled. -/
theorem discovery_is_ordered_union {tree : FileTree} {settings : DiscoverySettings}
    {found : List SourceFile} (succeeds : discover tree settings = .ok found) :
    ∃ listed, candidates tree settings = .ok listed ∧
      OrderedUnion (listed.map Path.withoutDots) (settings.alwaysInclude.map Path.withoutDots)
        (settings.exclude.map Path.withoutDots) found ∧
      ∀ other, settings.Respelled other → discover tree other = .ok found := by
  cases searched : candidates tree settings with
  | error fault =>
      rw [discover, searched] at succeeds
      cases succeeds
  | ok listed =>
      refine ⟨listed, rfl, ?_, fun other respelled => (discover_respelled respelled).trans succeeds⟩
      rw [discover, searched] at succeeds
      cases succeeds
      exact gather_ordered_union (((Path.dotless_map_without_dots _).append
        (Path.dotless_map_without_dots _)).append (Path.dotless_map_without_dots _))

/-- Three files in overlapping lists: one is listed twice, one always takes part and is excluded,
and one is only excluded. -/
def overlapping : DiscoverySettings where
  files := [⟨"a.f90"⟩, ⟨"src/b.f90"⟩, ⟨"./a.f90"⟩]
  alwaysInclude := [⟨"src/b.f90"⟩]
  exclude := [⟨"c.f90"⟩, ⟨"src/b.f90"⟩]

/-- The same files with other spellings of their paths. -/
def overlappingRespelled : DiscoverySettings where
  files := [⟨"a.f90"⟩, ⟨"src//b.f90"⟩, ⟨"./a.f90"⟩]
  alwaysInclude := [⟨"src/./b.f90"⟩]
  exclude := [⟨"c.f90/."⟩, ⟨"./src/b.f90"⟩]

theorem overlapping_respelled : overlapping.Respelled overlappingRespelled := by
  have same (path : Path) : Path.Respelled path path := .refl path
  have doubled : Path.Respelled ⟨"src/b.f90"⟩ ⟨"src//b.f90"⟩ :=
    .rel _ _ (.slash "src".toList "b.f90".toList)
  have dotted : Path.Respelled ⟨"src/b.f90"⟩ ⟨"src/./b.f90"⟩ :=
    .rel _ _ (.dot "src".toList "b.f90".toList)
  have ended : Path.Respelled ⟨"c.f90"⟩ ⟨"c.f90/."⟩ := .rel _ _ (.lastDot (by decide))
  have begun : Path.Respelled ⟨"src/b.f90"⟩ ⟨"./src/b.f90"⟩ := .rel _ _ (.firstDot (by decide))
  exact
    { files := .cons (same _) (.cons doubled (.cons (same _) .nil))
      alwaysInclude := .cons dotted .nil
      exclude := .cons ended (.cons begun .nil)
      roots := rfl
      manifests := rfl
      extensions := rfl
      ignore := rfl }

theorem overlapping_lists_united :
    let found : List SourceFile := [⟨⟨"a.f90"⟩, false, false⟩, ⟨⟨"src/b.f90"⟩, true, true⟩,
      ⟨⟨"c.f90"⟩, true, false⟩]
    discover (.empty []) overlapping = .ok found ∧
      OrderedUnion (overlapping.files.map Path.withoutDots)
        (overlapping.alwaysInclude.map Path.withoutDots) (overlapping.exclude.map Path.withoutDots)
        found ∧
      discover (.empty []) overlappingRespelled = .ok found := by
  intro found
  have succeeds : discover (.empty []) overlapping = .ok found := rfl
  obtain ⟨listed, searched, united, alike⟩ := discovery_is_ordered_union succeeds
  have files : candidates (.empty []) overlapping = .ok overlapping.files := rfl
  obtain rfl : listed = overlapping.files := Except.ok.inj (searched.symm.trans files)
  exact ⟨succeeds, united, alike overlappingRespelled overlapping_respelled⟩

end Discovery

end FortranDeps

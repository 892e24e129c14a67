import FortranDeps.Discovery
import FortranDeps.Proofs.Files.Paths

/-!
Sources gathered from three lists. Every step adds a path that is not there yet and leaves the paths
that are there in their places, so the paths of the sources are those of the lists, each at its
first occurrence; and the marks of a source say in which of the lists its path occurs.
-/

namespace FortranDeps

namespace Discovery

open FortranDeps.Units (SourceFile)

variable {excluded always : List Path} {files : List SourceFile} {path : Path}

theorem has_iff {files : List SourceFile} {path : Path} :
    files.any (·.path.same path) = true ↔
      path.components ∈ (files.map (·.path)).map Path.components := by
  rw [← Path.any_same_iff, List.any_map]
  rfl

/-- All paths of a list belong to sources. -/
def Present (paths : List Path) (files : List SourceFile) : Prop :=
  ∀ path ∈ paths, files.any (·.path.same path) = true

theorem path_mark_always (path : Path) (files : List SourceFile) :
    (markAlways path files).map (·.path) = files.map (·.path) := by
  induction files with
  | nil => rfl
  | cons file rest induction =>
      rw [markAlways]
      split
      · rfl
      · rw [List.map_cons, List.map_cons, induction]

/-- A step that adds a path, unless it is there, and moves no other one. -/
def Grows (add : List SourceFile → Path → List SourceFile) : Prop :=
  ∀ files path, (add files path).map (·.path) =
    if files.any (·.path.same path) then files.map (·.path) else files.map (·.path) ++ [path]

theorem grows_add_listed (excluded : List Path) : Grows (addListed excluded) := by
  intro files path
  rw [addListed]
  split <;> simp

theorem grows_add_always (excluded : List Path) : Grows (addAlways excluded) := by
  intro files path
  rw [addAlways]
  split
  · exact path_mark_always path files
  · simp

theorem grows_add_excluded : Grows addExcluded := by
  intro files path
  rw [addExcluded]
  split <;> simp

/-- No two sources have paths of the same components. -/
def Apart (files : List SourceFile) : Prop := ((files.map (·.path)).map Path.components).Nodup

theorem Grows.apart {add : List SourceFile → Path → List SourceFile} (grows : Grows add)
    (apart : Apart files) : Apart (add files path) := by
  unfold Apart
  rw [grows]
  split
  · exact apart
  · next fresh =>
      rw [has_iff] at fresh
      rw [List.map_append, List.map_singleton]
      exact List.nodup_append'.mpr
        ⟨apart, List.nodup_singleton _, List.disjoint_singleton.mpr fresh⟩

theorem Grows.keeps {add : List SourceFile → Path → List SourceFile} (grows : Grows add)
    (present : Present always files) : Present always (add files path) := by
  intro other listed
  have known := has_iff.mp (present other listed)
  rw [has_iff, grows]
  split
  · exact known
  · rw [List.map_append]
    exact List.mem_append_left _ known

/-- A run of such steps adds the first occurrence of each new path. -/
theorem Grows.paths_foldl {add : List SourceFile → Path → List SourceFile} (grows : Grows add)
    (paths : List Path) (files : List SourceFile) :
    (paths.foldl add files).map (·.path) =
      files.map (·.path) ++
        (Path.distinct paths).filter fun path => !(files.map (·.path)).any (·.same path) := by
  induction paths generalizing files with
  | nil => simp [Path.distinct]
  | cons path rest induction =>
      rw [List.foldl_cons, induction, grows, Path.distinct, List.filter_cons]
      have there : (files.map (·.path)).any (·.same path) = files.any (·.path.same path) := by
        rw [List.any_map]
        rfl
      rw [there]
      split
      · next known =>
          simp only [known, Bool.not_true, Bool.false_eq_true, if_false, List.filter_filter]
          congr 1
          apply List.filter_congr
          intro other _
          -- A path like the one that is known is not new either.
          cases same : other.same path with
          | false => simp
          | true =>
              have components := Path.same_iff.mp same
              have met : (files.map (·.path)).any (·.same other) = true := by
                rw [Path.any_same_iff, components, ← has_iff]
                exact known
              simp [met]
      · next fresh =>
          simp only [fresh, Bool.not_false, if_true, List.append_assoc, List.singleton_append,
            List.filter_filter, List.any_append, List.any_cons, List.any_nil, Bool.or_false]
          congr 3
          funext other
          rw [Bool.not_or, Path.same_comm path]

/-- The marks of the sources say whether their paths are in the list of excluded files, and in the
list of those that always take part. -/
def Marked (excluded always : List Path) (files : List SourceFile) : Prop :=
  ∀ file ∈ files, file.excluded = excluded.any (·.same file.path) ∧
    file.alwaysInclude = always.any (·.same file.path)

theorem marked_add_listed (marked : Marked excluded [] files) :
    Marked excluded [] (addListed excluded files path) := by
  rw [addListed]
  split
  · exact marked
  · intro file member
    rcases List.mem_append.mp member with earlier | added
    · exact marked file earlier
    · obtain rfl := List.mem_singleton.mp added
      exact ⟨rfl, rfl⟩

theorem mem_mark_always {file : SourceFile} (apart : Apart files)
    (member : file ∈ markAlways path files) :
    ∃ before ∈ files, file.path = before.path ∧ file.excluded = before.excluded ∧
      file.alwaysInclude = (before.alwaysInclude || path.same before.path) := by
  induction files with
  | nil => cases member
  | cons first rest induction =>
      obtain ⟨fresh, later⟩ := List.nodup_cons.mp apart
      rw [markAlways] at member
      split at member
      · next same =>
          have components := Path.same_iff.mp same
          rcases List.mem_cons.mp member with rfl | inRest
          · exact ⟨first, List.mem_cons_self, rfl, rfl,
              by simp [Path.same_iff.mpr components.symm]⟩
          · -- The paths behind the first one have other components.
            have other : path.same file.path = false := by
              rw [Bool.eq_false_iff, Ne, Path.same_iff, ← components]
              intro equal
              apply fresh
              rw [equal]
              exact List.mem_map_of_mem (List.mem_map_of_mem inRest)
            exact ⟨file, List.mem_cons_of_mem _ inRest, rfl, rfl, by simp [other]⟩
      · next differ =>
          rcases List.mem_cons.mp member with rfl | inRest
          · have other : path.same file.path = false := by
              rw [Bool.eq_false_iff, Ne, Path.same_iff, eq_comm, ← Path.same_iff]
              exact differ
            exact ⟨file, List.mem_cons_self, rfl, rfl, by simp [other]⟩
          · obtain ⟨before, inside, same⟩ := induction later inRest
            exact ⟨before, List.mem_cons_of_mem _ inside, same⟩

theorem marked_add_always (apart : Apart files) (marked : Marked excluded always files) :
    Marked excluded (always ++ [path]) (addAlways excluded files path) := by
  intro file member
  rw [addAlways] at member
  split at member
  · obtain ⟨before, inside, own, same, always⟩ := mem_mark_always apart member
    obtain ⟨out, taken⟩ := marked before inside
    rw [own, same, always, out, taken, List.any_append, List.any_cons, List.any_nil, Bool.or_false]
    exact ⟨rfl, rfl⟩
  · next fresh =>
      rcases List.mem_append.mp member with earlier | added
      · obtain ⟨out, taken⟩ := marked file earlier
        have other : path.same file.path = false := by
          rw [Bool.eq_false_iff]
          intro same
          apply fresh
          rw [has_iff, Path.same_iff.mp same]
          exact List.mem_map_of_mem (List.mem_map_of_mem earlier)
        simp [out, taken, other]
      · obtain rfl := List.mem_singleton.mp added
        simp [Path.same_iff.mpr rfl]

theorem marked_add_excluded (marked : Marked excluded always files) (present : Present always files)
    (member : path ∈ excluded) : Marked excluded always (addExcluded files path) := by
  rw [addExcluded]
  split
  · exact marked
  · next fresh =>
      intro file inside
      rcases List.mem_append.mp inside with earlier | added
      · exact marked file earlier
      · obtain rfl := List.mem_singleton.mp added
        have out : excluded.any (·.same path) = true :=
          List.any_eq_true.mpr ⟨path, member, Path.same_iff.mpr rfl⟩
        have untaken : always.any (·.same path) = false := by
          rw [Bool.eq_false_iff]
          intro taken
          obtain ⟨other, listed, same⟩ := List.any_eq_true.mp taken
          apply fresh
          rw [has_iff, ← Path.same_iff.mp same, ← has_iff]
          exact present other listed
        exact ⟨out.symm, untaken.symm⟩

/-! Runs of steps. -/

theorem Grows.present_foldl {add : List SourceFile → Path → List SourceFile} (grows : Grows add)
    (paths : List Path) (files : List SourceFile) : Present paths (paths.foldl add files) := by
  intro path member
  rw [has_iff, grows.paths_foldl, List.map_append, List.mem_append]
  by_cases known : path.components ∈ (files.map (·.path)).map Path.components
  · exact .inl known
  · obtain ⟨other, first, same⟩ :=
      List.mem_map.mp (Path.mem_components_distinct.mpr (List.mem_map_of_mem member))
    refine .inr (List.mem_map.mpr ⟨other, List.mem_filter.mpr ⟨first, ?_⟩, same⟩)
    rw [Bool.not_eq_true', Bool.eq_false_iff, Ne, Path.any_same_iff, same]
    exact known

theorem Grows.apart_foldl {add : List SourceFile → Path → List SourceFile} (grows : Grows add)
    (paths : List Path) (apart : Apart files) : Apart (paths.foldl add files) := by
  induction paths generalizing files with
  | nil => exact apart
  | cons path rest induction => exact induction (grows.apart apart)

theorem marked_foldl_add_listed (listed : List Path) (marked : Marked excluded [] files) :
    Marked excluded [] (listed.foldl (addListed excluded) files) := by
  induction listed generalizing files with
  | nil => exact marked
  | cons path rest induction => exact induction (marked_add_listed marked)

theorem marked_foldl_add_always (later : List Path) (apart : Apart files)
    (marked : Marked excluded always files) :
    Marked excluded (always ++ later) (later.foldl (addAlways excluded) files) := by
  induction later generalizing always files with
  | nil => rwa [List.append_nil]
  | cons path rest induction =>
      rw [List.append_cons]
      exact induction ((grows_add_always excluded).apart apart) (marked_add_always apart marked)

theorem marked_foldl_add_excluded {some : List Path} (inside : some ⊆ excluded)
    (marked : Marked excluded always files) (present : Present always files) :
    Marked excluded always (some.foldl addExcluded files) := by
  induction some generalizing files with
  | nil => exact marked
  | cons path rest induction =>
      obtain ⟨member, others⟩ := List.cons_subset.mp inside
      exact induction others (marked_add_excluded marked present member)
        (grows_add_excluded.keeps present)

theorem apart_nil : Apart [] := List.nodup_nil

theorem apart_gather (listed always excluded : List Path) :
    Apart (gather listed always excluded) :=
  grows_add_excluded.apart_foldl excluded ((grows_add_always excluded).apart_foldl always
    ((grows_add_listed excluded).apart_foldl listed apart_nil))

theorem marked_gather (listed always excluded : List Path) :
    Marked excluded always (gather listed always excluded) := by
  have found : Marked excluded [] (listed.foldl (addListed excluded) []) :=
    marked_foldl_add_listed listed (List.forall_mem_nil _)
  have apart := (grows_add_listed excluded).apart_foldl listed apart_nil
  have completed := marked_foldl_add_always always apart found
  exact marked_foldl_add_excluded (List.Subset.refl excluded) completed
    ((grows_add_always excluded).present_foldl always _)

/-- The paths are those of the three lists, each at its first occurrence. -/
theorem paths_gather (listed always excluded : List Path) :
    (gather listed always excluded).map (·.path) =
      Path.distinct (listed ++ always ++ excluded) := by
  have first : (listed.foldl (addListed excluded) []).map (·.path) = Path.distinct listed := by
    rw [(grows_add_listed excluded).paths_foldl]
    simp
  have second : (always.foldl (addAlways excluded) (listed.foldl (addListed excluded) [])).map
      (·.path) = Path.distinct (listed ++ always) := by
    rw [(grows_add_always excluded).paths_foldl, first, Path.distinct_append]
    simp only [Path.any_same_distinct]
  rw [gather, grows_add_excluded.paths_foldl, second, Path.distinct_append (listed ++ always)]
  simp only [Path.any_same_distinct]

theorem gather_eq (listed always excluded : List Path) :
    gather listed always excluded =
      (Path.distinct (listed ++ always ++ excluded)).map fun path =>
        ⟨path, excluded.any (·.same path), always.any (·.same path)⟩ := by
  rw [← paths_gather, List.map_map]
  conv => lhs; rw [← List.map_id (gather listed always excluded)]
  apply List.map_congr_left
  intro file member
  obtain ⟨out, taken⟩ := marked_gather listed always excluded file member
  rw [Function.comp_apply, ← out, ← taken]
  rfl

end Discovery

end FortranDeps

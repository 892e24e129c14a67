import FortranDeps.Proofs.Build.GraphShape
import FortranDeps.Proofs.Files.Paths

/-!
A dependency graph as a map that keeps the order of insertion. A mention adds a file at the end,
unless a file of the same components is there, so the files are those that the calls mention, each
at the place and in the spelling of its first mention. What a file needs is what it was added with
last; a file that was only mentioned needs nothing.
-/

namespace FortranDeps.Build.DependencyGraph

/-- All files that calls mention, in order: each added file, and then what it is added with. -/
def mentions (calls : List (Path × List Path)) : List Path :=
  calls.flatMap fun call => call.1 :: call.2

/-- A graph as the map that calls build: the files in the order in which they are first mentioned,
each with what it was added with last. -/
structure IsMapOf (graph : DependencyGraph) (calls : List (Path × List Path)) : Prop extends
    graph.WellFormed where
  apart : graph.files.toList.Pairwise fun first second => first.components ≠ second.components
  order : graph.files.toList = Path.distinct (mentions calls)
  contains_iff : ∀ file, graph.contains file = true ↔
    ∃ mentioned ∈ mentions calls, mentioned.components = file.components
  added_last : ∀ before file prerequisites after, calls = before ++ (file, prerequisites) :: after →
    (∀ call ∈ after, call.1.components ≠ file.components) →
    ∀ spelling : Path, spelling.components = file.components →
      (graph.prerequisites spelling).map Path.components = prerequisites.map Path.components
  never_added : ∀ file, (∀ call ∈ calls, call.1.components ≠ file.components) →
    graph.prerequisites file = []

namespace WellFormed

variable {graph : DependencyGraph} {seen : List Path}

theorem contains_iff (formed : graph.WellFormed) {file : Path} :
    graph.contains file = true ↔ file.components ∈ graph.files.toList.map Path.components := by
  rw [contains, Std.HashMap.contains_eq_isSome_getElem?, Option.isSome_iff_exists,
    List.mem_iff_getElem?]
  apply exists_congr
  intro node
  rw [formed.position_iff, List.getElem?_map, Array.getElem?_toList]

/-- A file is added behind those that were seen, unless it is like one of them. -/
theorem files_mention (formed : graph.WellFormed)
    (order : graph.files.toList = Path.distinct seen) (file : Path) :
    (graph.mention file).files.toList = Path.distinct (seen ++ [file]) := by
  have known : graph.contains file = seen.any (·.same file) := by
    rw [Bool.eq_iff_iff, formed.contains_iff, order, ← Path.any_same_iff, Path.any_same_distinct]
  rw [Path.distinct_append, ← order]
  unfold DependencyGraph.mention
  rw [known]
  cases met : seen.any (·.same file) with
  | true => simp [Path.distinct, met]
  | false => simp [Path.distinct, met]

theorem files_mention_all (formed : graph.WellFormed)
    (order : graph.files.toList = Path.distinct seen) (files : List Path) :
    (files.foldl DependencyGraph.mention graph).files.toList = Path.distinct (seen ++ files) := by
  induction files generalizing graph seen with
  | nil =>
      rw [List.append_nil]
      exact order
  | cons file rest induction =>
      rw [List.append_cons]
      exact induction (formed.mention file).1 (formed.files_mention order file)

theorem files_add_file (formed : graph.WellFormed)
    (order : graph.files.toList = Path.distinct seen) (file : Path) (prerequisites : List Path) :
    (graph.addFile file prerequisites).files.toList =
      Path.distinct (seen ++ file :: prerequisites) := by
  have mentioned := formed.files_mention_all order (file :: prerequisites)
  -- The needs that are set at last leave the files as they are.
  unfold DependencyGraph.addFile
  dsimp only
  split
  · exact mentioned
  · exact mentioned

theorem files_add_files (formed : graph.WellFormed)
    (order : graph.files.toList = Path.distinct seen) (calls : List (Path × List Path)) :
    (graph.addFiles calls).files.toList = Path.distinct (seen ++ mentions calls) := by
  induction calls generalizing graph seen with
  | nil =>
      rw [mentions, List.flatMap_nil, List.append_nil]
      exact order
  | cons call rest induction =>
      rw [mentions, List.flatMap_cons, ← List.append_assoc]
      exact induction (formed.add_file call.1 call.2) (formed.files_add_file order call.1 call.2)

end WellFormed

/-- The files of a graph are those that calls mention, each at its first mention. -/
theorem files_of_calls (calls : List (Path × List Path)) :
    (ofCalls calls).files.toList = Path.distinct (mentions calls) := by
  have start : empty.files.toList = Path.distinct [] := rfl
  exact well_formed_empty.files_add_files start calls

theorem mem_mentions {calls : List (Path × List Path)} {path : Path} :
    path ∈ mentions calls ↔ ∃ call ∈ calls, path ∈ call.1 :: call.2 :=
  List.mem_flatMap

theorem mem_files_of_calls {calls : List (Path × List Path)} {path : Path}
    (member : path ∈ (ofCalls calls).files.toList) : ∃ call ∈ calls, path ∈ call.1 :: call.2 := by
  rw [files_of_calls] at member
  exact mem_mentions.mp ((Path.distinct_sublist _).mem member)

/-- Every mentioned file is there, in one of its spellings. -/
theorem exists_file_of_mentioned {calls : List (Path × List Path)} {path : Path}
    (mentioned : path ∈ mentions calls) :
    ∃ file ∈ (ofCalls calls).files.toList, file.components = path.components := by
  rw [files_of_calls]
  exact List.mem_map.mp (Path.mem_components_distinct.mpr (List.mem_map_of_mem mentioned))

/-- A file that stands before one that was added is mentioned in an earlier call. -/
theorem mentioned_earlier {before after : List (Path × List Path)} {earlier file : Path}
    {needed : List Path}
    (written : ∀ path ∈ (ofCalls (before ++ (earlier, needed) :: after)).files.toList,
      path.components = earlier.components → path = earlier)
    (less : (ofCalls (before ++ (earlier, needed) :: after)).files.toList.idxOf file <
      (ofCalls (before ++ (earlier, needed) :: after)).files.toList.idxOf earlier) :
    ∃ call ∈ before, file ∈ call.1 :: call.2 := by
  obtain ⟨rest, order⟩ : ∃ rest, (ofCalls (before ++ (earlier, needed) :: after)).files.toList =
      Path.distinct (mentions before ++ [earlier]) ++ rest := by
    have split : mentions (before ++ (earlier, needed) :: after) =
        (mentions before ++ [earlier]) ++ (needed ++ mentions after) := by
      simp [mentions]
    rw [files_of_calls, split, Path.distinct_append]
    exact ⟨_, rfl⟩
  rw [order] at written less
  have front : earlier ∈ mentions before ++ [earlier] := by simp
  obtain ⟨path, own, same⟩ :=
    List.mem_map.mp (Path.mem_components_distinct.mpr (List.mem_map_of_mem front))
  rw [written path (List.mem_append_left rest own) same] at own
  have found : file ∈ Path.distinct (mentions before ++ [earlier]) := by
    by_contra absent
    rw [List.idxOf_append_of_notMem absent, List.idxOf_append_of_mem own] at less
    have inside := List.idxOf_lt_length_of_mem own
    omega
  rcases List.mem_append.mp ((Path.distinct_sublist _).mem found) with there | last
  · exact mem_mentions.mp there
  · obtain rfl := List.mem_singleton.mp last
    omega

/-- Whatever the calls, repeated or referring forward, they build a map that keeps the order of
insertion: positions and files are inverse to each other, the files are distinct and stand in the
order of their first mention, and each needs what the last call for it says. -/
theorem calls_build_ordered_map (calls : List (Path × List Path)) :
    (ofCalls calls).IsMapOf calls := by
  have formed := well_formed_of_calls calls
  have order := files_of_calls calls
  refine ⟨formed, ?_, order, ?_, ?_, ?_⟩
  · rw [order]
    exact Path.distinct_apart (mentions calls)
  · intro file
    rw [formed.contains_iff, order, Path.mem_components_distinct, List.mem_map]
  · intro before file prerequisites after split last spelling same
    rw [prerequisites_congr _ same, prerequisites_of_calls, split, added_with_last last]
  · intro file never
    have nothing := prerequisites_of_calls calls file
    rw [added_with_never never] at nothing
    exact List.map_eq_nil_iff.mp nothing

/-- A file that is added twice, and one that needs itself and is spelled in three ways. -/
def respelledCalls : List (Path × List Path) :=
  [(⟨"a.f90"⟩, [⟨"src/m.f90"⟩, ⟨"src//m.f90"⟩]), (⟨"src/m.f90"⟩, [⟨"src/m.f90"⟩]),
    (⟨"a.f90"⟩, [⟨"k.f90"⟩, ⟨"src/./m.f90"⟩, ⟨"k.f90"⟩])]

theorem added_again_in_its_place :
    let graph := ofCalls respelledCalls
    graph.files.toList = [⟨"a.f90"⟩, ⟨"src/m.f90"⟩, ⟨"k.f90"⟩] ∧
      (graph.prerequisites ⟨"a.f90/"⟩).map Path.components =
        [⟨"k.f90"⟩, ⟨"src/m.f90"⟩, ⟨"k.f90"⟩].map Path.components ∧
      graph.prerequisites ⟨"k.f90"⟩ = [] ∧ graph.contains ⟨"src/m.f90/."⟩ = true := by
  intro graph
  have built : graph.IsMapOf respelledCalls := calls_build_ordered_map respelledCalls
  refine ⟨built.order.trans rfl, ?_, ?_, ?_⟩
  · exact built.added_last (respelledCalls.take 2) ⟨"a.f90"⟩ _ [] rfl (List.forall_mem_nil _) _ rfl
  · exact built.never_added ⟨"k.f90"⟩ (by decide)
  · exact (built.contains_iff ⟨"src/m.f90/."⟩).mpr ⟨⟨"src/m.f90"⟩, by decide, by decide⟩

end FortranDeps.Build.DependencyGraph

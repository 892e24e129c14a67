import FortranDeps.Proofs.Build.Clashes

/-!
From names to files. An index without clashes holds each declared name once, with the
file that declares it, and a resolution that succeeds gives exactly the files whose names
are used, up to the way in which their paths are written.
-/

namespace FortranDeps.Build

open FortranDeps.Units FortranDeps.Project

/-- A name stands for the file that declares it. -/
theorem lookup_gather_index {files : List ScannedFile} {index : SymbolIndex}
    (built : gatherIndex files = (index, [])) {name : String} {path : Path} :
    index.lookup name = some path ↔
      ∃ file ∈ files, file.declaration.name = name ∧ file.declaration.file = path := by
  unfold SymbolIndex.lookup
  rw [Option.map_eq_some_iff]
  constructor
  · rintro ⟨definition, found, rfl⟩
    obtain ⟨file, member, name, rfl⟩ := (get?_gather_index_iff built).mp found
    exact ⟨file, member, name, rfl⟩
  · rintro ⟨file, member, name, rfl⟩
    exact ⟨definitionOf file, (get?_gather_index_iff built).mpr ⟨file, member, name, rfl⟩, rfl⟩

theorem lookup_gather_index_eq_none {files : List ScannedFile} {name : String} :
    (gatherIndex files).1.lookup name = none ↔ name ∉ files.map (·.declaration.name) := by
  unfold SymbolIndex.lookup
  rw [Option.map_eq_none_iff, get?_gather_index, Option.map_eq_none_iff, List.find?_eq_none]
  simp

/-! Resolution. -/

theorem resolve_use_eq_needs {user path : Path} {index : SymbolIndex} {skip : SkipSet}
    {edge : UseEdge} :
    resolveUse user index skip edge = .needs path ↔
      edge.intrinsic = false ∧ skip.contains edge.name = false ∧
        index.lookup edge.name = some path ∧ path.components ≠ user.components := by
  unfold resolveUse
  by_cases passed : (edge.intrinsic || skip.contains edge.name) = true
  · rw [if_pos passed]
    rcases Bool.or_eq_true_iff.mp passed with intrinsic | skipped
    · simp [intrinsic]
    · simp [skipped]
  · rw [if_neg passed]
    obtain ⟨intrinsic, skipped⟩ := Bool.or_eq_false_iff.mp (Bool.eq_false_iff.mpr passed)
    simp only [intrinsic, skipped, true_and]
    cases index.lookup edge.name with
    | none => simp
    | some found =>
        by_cases own : found.same user = true
        · have equal := Path.same_iff.mp own
          simp only [own, if_true, reduceCtorEq, false_iff, Option.some.injEq]
          rintro ⟨rfl, differ⟩
          exact differ equal
        · have differ := fun equal => own (Path.same_iff.mpr equal)
          simp only [own, Bool.false_eq_true, if_false, Resolution.needs.injEq, Option.some.injEq]
          constructor
          · rintro rfl
            exact ⟨rfl, differ⟩
          · exact fun both => both.1

/-- Every file that is needed is the one that a use stands for. -/
theorem resolve_use_of_mem {file : ScannedFile} {index : SymbolIndex} {skip : SkipSet}
    {prerequisites : List Path} (resolved : resolve file index skip = .ok prerequisites)
    {path : Path} (member : path ∈ prerequisites) :
    ∃ edge ∈ file.uses, resolveUse file.source.path index skip edge = .needs path := by
  unfold resolve at resolved
  simp only at resolved
  split at resolved
  · cases resolved
    have listed := (Path.distinct_sublist _).mem member
    rw [List.filterMap_map] at listed
    obtain ⟨edge, inside, found⟩ := List.mem_filterMap.mp listed
    refine ⟨edge, inside, ?_⟩
    simp only [Function.comp_apply] at found
    split at found
    · next needed => rw [needed, Option.some.inj found]
    · cases found
  · cases resolved

theorem mem_resolve {file : ScannedFile} {index : SymbolIndex} {skip : SkipSet}
    {prerequisites : List Path} (resolved : resolve file index skip = .ok prerequisites)
    {components : List Component} :
    components ∈ prerequisites.map Path.components ↔
      ∃ edge ∈ file.uses, ∃ path,
        resolveUse file.source.path index skip edge = .needs path ∧
          path.components = components := by
  constructor
  · intro listed
    obtain ⟨path, member, same⟩ := List.mem_map.mp listed
    obtain ⟨edge, inside, needed⟩ := resolve_use_of_mem resolved member
    exact ⟨edge, inside, path, needed, same⟩
  · rintro ⟨edge, inside, path, needed, same⟩
    unfold resolve at resolved
    simp only at resolved
    split at resolved
    · cases resolved
      rw [Path.mem_components_distinct, List.filterMap_map, List.mem_map]
      exact ⟨path, List.mem_filterMap.mpr ⟨edge, inside, by simp [needed]⟩, same⟩
    · cases resolved

theorem resolve_use_eq_missing {user : Path} {index : SymbolIndex} {skip : SkipSet}
    {edge : UseEdge} :
    resolveUse user index skip edge = .missing ↔
      (edge.intrinsic = false ∧ skip.contains edge.name = false) ∧
        index.lookup edge.name = none := by
  unfold resolveUse
  rw [← Bool.or_eq_false_iff]
  cases edge.intrinsic || skip.contains edge.name with
  | true => simp
  | false =>
      cases index.lookup edge.name with
      | none => simp
      | some found => by_cases own : found.same user = true <;> simp [own]

/-- The uses of a file that no file of the index defines. -/
def missingEdges (index : SymbolIndex) (skip : SkipSet) (file : ScannedFile) : List UseEdge :=
  file.uses.filter (resolveUse file.source.path index skip · = .missing)

def unresolved (edge : UseEdge) : Diagnostic := .unresolvedModule edge.name edge.file

theorem resolve_cases (file : ScannedFile) (index : SymbolIndex) (skip : SkipSet) :
    (missingEdges index skip file = [] ∧
        ∃ prerequisites, resolve file index skip = .ok prerequisites) ∨
      (missingEdges index skip file ≠ [] ∧
        resolve file index skip = .error ((missingEdges index skip file).map unresolved)) := by
  have failures (report : UseEdge × Resolution → Option Diagnostic)
      (reports : ∀ outcome,
        report outcome = if outcome.2 = .missing then some (unresolved outcome.1) else none) :
      (file.uses.map fun edge =>
          (edge, resolveUse file.source.path index skip edge)).filterMap report =
        (missingEdges index skip file).map unresolved := by
    unfold missingEdges
    rw [List.filterMap_map, ← List.filterMap_eq_map, List.filterMap_filter]
    apply List.filterMap_congr
    intro edge inside
    simp [reports]
  unfold resolve
  simp only
  rw [failures]
  · cases missing : missingEdges index skip file with
    | nil => exact .inl ⟨rfl, _, rfl⟩
    | cons edge rest => exact .inr ⟨List.cons_ne_nil edge rest, rfl⟩
  · rintro ⟨edge, resolution⟩
    cases resolution <;> rfl

theorem resolve_failures_ne_nil {file : ScannedFile} {index : SymbolIndex} {skip : SkipSet}
    {failures : List Diagnostic} (failed : resolve file index skip = .error failures) :
    failures ≠ [] := by
  rcases resolve_cases file index skip with ⟨-, prerequisites, resolved⟩ | ⟨some, error⟩
  · rw [resolved] at failed
    cases failed
  · rw [error] at failed
    cases failed
    rwa [Ne, List.map_eq_nil_iff]

theorem resolve_complains (index : SymbolIndex) (skip : SkipSet) :
    Complains (resolveFile index skip) := by
  intro graph file failed
  unfold resolveFile at failed
  split at failed
  · cases failed
  · cases outcome : resolve file index skip with
    | ok prerequisites =>
        rw [outcome] at failed
        cases failed
    | error failures =>
        rw [outcome] at failed
        cases failed
        exact resolve_failures_ne_nil outcome rfl

/-- The failures are the uses of modules that no file defines. -/
theorem mem_failures {file : ScannedFile} {index : SymbolIndex} {skip : SkipSet}
    {failures : List Diagnostic} (failed : resolve file index skip = .error failures)
    {diagnostic : Diagnostic} :
    diagnostic ∈ failures ↔ ∃ edge ∈ file.uses,
      resolveUse file.source.path index skip edge = .missing ∧
        diagnostic = .unresolvedModule edge.name edge.file := by
  rcases resolve_cases file index skip with ⟨-, prerequisites, resolved⟩ | ⟨some, error⟩
  · rw [resolved] at failed
    cases failed
  · rw [error] at failed
    cases failed
    simp only [missingEdges, unresolved, List.mem_map, List.mem_filter, decide_eq_true_eq,
      and_assoc, @eq_comm _ diagnostic]

theorem resolve_of_missing {file : ScannedFile} {index : SymbolIndex} {skip : SkipSet}
    {edge : UseEdge} (inside : edge ∈ file.uses)
    (missing : resolveUse file.source.path index skip edge = .missing) :
    ∃ failures, resolve file index skip = .error failures := by
  rcases resolve_cases file index skip with ⟨none, -⟩ | ⟨-, error⟩
  · have there : edge ∈ missingEdges index skip file :=
      List.mem_filter.mpr ⟨inside, decide_eq_true missing⟩
    rw [none] at there
    cases there
  · exact ⟨_, error⟩

/-- Uses that are passed over can be left out. -/
theorem resolve_without {file : ScannedFile} {index : SymbolIndex} {skip : SkipSet}
    (keep : UseEdge → Bool)
    (passed : ∀ edge ∈ file.uses, keep edge = false →
      resolveUse file.source.path index skip edge = .passedOver) :
    resolve { file with uses := file.uses.filter keep } index skip = resolve file index skip := by
  have same {Value : Type} (f : UseEdge × Resolution → Option Value)
      (silent : ∀ edge, f (edge, .passedOver) = none) :
      ((file.uses.filter keep).map fun edge =>
          (edge, resolveUse file.source.path index skip edge)).filterMap f =
        (file.uses.map fun edge =>
          (edge, resolveUse file.source.path index skip edge)).filterMap f := by
    rw [List.filterMap_map, List.filterMap_map, List.filterMap_filter]
    apply List.filterMap_congr
    intro edge inside
    cases kept : keep edge with
    | true => rfl
    | false => simp [passed edge inside kept, silent]
  unfold resolve
  simp only
  rw [same _ fun _ => rfl, same _ fun _ => rfl]

end FortranDeps.Build

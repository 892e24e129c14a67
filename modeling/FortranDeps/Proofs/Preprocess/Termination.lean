import FortranDeps.Proofs.Preprocess.Balance
import FortranDeps.Proofs.Preprocess.Frames
import FortranDeps.Proofs.Preprocess.MissedFiles

/-!
Preprocessing comes to an end on every source, whatever its files include. An included file brings
in no further includes, so the includes that are looked up are among those of the source, each of
them at most once.
-/

namespace FortranDeps.Preprocess

/-- What preprocessing results in if levels are walked by the loop. -/
def LoopResult (tree : FileTree) (paths : List Path) (lines : List Line) (seeds : MacroTable)
    (result : Except Diagnostic (List Line) × Progress) : Prop :=
  match Item.ofLines lines with
  | .error diagnostic => result = (.error diagnostic, ⟨seeds, []⟩)
  | .ok items =>
      match prepareLevel tree paths items ⟨seeds, []⟩ with
      | (.error diagnostic, progress) => result = (.error diagnostic, progress)
      | (.ok level, progress) => Loop.Ends (walker tree paths).turn (.start level progress) result

/-- The locations of the lines that include a file. -/
def includeLocations (lines : List Line) : List Location :=
  (lines.filter fun line => (lineItem line).isInclude).map (·.location)

theorem loop_result_iff (tree : FileTree) (paths : List Path) (lines : List Line)
    (seeds : MacroTable) (result : Except Diagnostic (List Line) × Progress) :
    LoopResult tree paths lines seeds result ↔ result = preprocess tree paths lines seeds := by
  unfold LoopResult preprocess
  cases Item.ofLines lines with
  | error diagnostic => exact Iff.rfl
  | ok items =>
      dsimp only
      generalize prepareLevel tree paths items ⟨seeds, []⟩ = prepared
      obtain ⟨outcome, progress⟩ := prepared
      cases outcome with
      | error diagnostic => exact Iff.rfl
      | ok level => exact (walker tree paths).ends_iff level progress result

theorem count_include_locations (lines : List Line) (location : Location) :
    (includeLocations lines).count location = includesAt location (lines.map lineItem) := by
  unfold includeLocations includesAt List.count
  rw [List.countP_map, List.countP_map, List.countP_filter]
  apply List.countP_congr
  intro line _
  simp [Bool.and_comm, lineItem]

theorem loaded_subperm (tree : FileTree) (paths : List Path) (lines : List Line)
    (seeds : MacroTable) :
    (preprocess tree paths lines seeds).2.loaded.Subperm (includeLocations lines) := by
  cases read : Item.ofLines lines with
  | error diagnostic =>
      unfold preprocess
      rw [read]
      exact List.nil_subperm
  | ok items =>
      apply List.subperm_ext_iff.mpr
      intro location _
      obtain ⟨most, -⟩ := @preprocess_accounts tree paths lines seeds items read location
      rw [count_include_locations, ← of_lines_eq read]
      omega

/-- The loop never goes on for ever, not even from a state that no run leads to. Every source has a
result, which is the only one, and the includes that a run looks up, also one that fails, are
includes of the source, each taken at most once; so there are no more lookups than includes. -/
theorem preprocessing_ends (tree : FileTree) (paths : List Path) (lines : List Line)
    (seeds : MacroTable) :
    WellFounded (fun later earlier => Loop.Turns (walker tree paths).turn earlier later) ∧
    (∀ result, LoopResult tree paths lines seeds result ↔
      result = preprocess tree paths lines seeds) ∧
    (preprocess tree paths lines seeds).2.loaded.Subperm (includeLocations lines) ∧
    (preprocess tree paths lines seeds).2.loaded.length ≤
      lines.countP fun line => (lineItem line).isInclude := by
  have once := loaded_subperm tree paths lines seeds
  refine ⟨(walker tree paths).turns_well_founded, loop_result_iff tree paths lines seeds, once, ?_⟩
  calc (preprocess tree paths lines seeds).2.loaded.length
      ≤ (includeLocations lines).length := once.length_le
    _ = lines.countP fun line => (lineItem line).isInclude := by
        rw [includeLocations, List.length_map, List.countP_eq_length_filter]

end FortranDeps.Preprocess

import FortranDeps.Proofs.Project.Stages

/-!
The two error modes of an analysis. With accumulation a stage goes on behind a failure and gives all
of them at its end, without it the first failure ends the run. Each stage keeps the two modes in
step, the scan by its own loop and the later ones by what a reporter takes down, and so does the
analysis, which is a sequence of stages: it succeeds in both modes with the same result, or fails
in both.
-/

namespace FortranDeps

open FortranDeps.Units

/-- The same settings with the given error mode. -/
def Settings.withMode (settings : Settings) (mode : ErrorMode) : Settings :=
  { settings with resolve := { settings.resolve with mode } }

namespace Project

open Build

/-- Two outcomes in step: the same value, or failures of which the second outcome has the first
one only. -/
inductive InStep {Value : Type} :
    Except (List Diagnostic) Value → Except (List Diagnostic) Value → Prop where
  | done (value : Value) : InStep (.ok value) (.ok value)
  | failed (first : Diagnostic) (rest : List Diagnostic) :
      InStep (.error (first :: rest)) (.error [first])

namespace InStep

variable {First Second : Type}

theorem bind {accumulated stopped : Except (List Diagnostic) First}
    {next other : First → Except (List Diagnostic) Second} (before : InStep accumulated stopped)
    (after : ∀ value, InStep (next value) (other value)) :
    InStep (accumulated >>= next) (stopped >>= other) := by
  cases before with
  | done value => exact after value
  | failed first rest => exact .failed first rest

/-- A stage that knows no modes fails with one failure at most. -/
theorem or_fail (result : Except Diagnostic First) :
    InStep (Project.orFail result) (Project.orFail result) := by
  cases result with
  | ok value => exact .done value
  | error diagnostic => exact .failed diagnostic []

theorem stop_on (failures : List Diagnostic) :
    InStep (stopOn .accumulate failures) (stopOn .failFast failures) := by
  cases failures with
  | nil => exact .done ()
  | cons first rest => exact .failed first rest

theorem ok_iff {accumulated stopped : Except (List Diagnostic) First}
    (step : InStep accumulated stopped) (value : First) :
    stopped = .ok value ↔ accumulated = .ok value := by
  cases step with
  | done value => exact Iff.rfl
  | failed first rest =>
      constructor
      · intro impossible
        cases impossible
      · intro impossible
        cases impossible

theorem error_iff {accumulated stopped : Except (List Diagnostic) First}
    (step : InStep accumulated stopped) (failures : List Diagnostic) :
    stopped = .error failures ↔
      ∃ first rest, accumulated = .error (first :: rest) ∧ failures = [first] := by
  cases step with
  | done value =>
      constructor
      · intro impossible
        cases impossible
      · rintro ⟨first, rest, impossible, -⟩
        cases impossible
  | failed first rest =>
      constructor
      · intro same
        exact ⟨first, rest, rfl, (Except.error.inj same).symm⟩
      · rintro ⟨other, others, same, rfl⟩
        cases same
        rfl

theorem error_ne_nil {accumulated stopped : Except (List Diagnostic) First}
    (step : InStep accumulated stopped) : accumulated ≠ .error [] := by
  cases step with
  | done value =>
      intro impossible
      cases impossible
  | failed first rest =>
      intro impossible
      cases impossible

end InStep

/-! Scanning: without accumulation the outcomes behind the first failure are missing. -/

/-- The failures among outcomes. -/
def failuresOf (outcomes : List (Except Diagnostic (Option ScannedFile))) : List Diagnostic :=
  outcomes.filterMap fun outcome =>
    match outcome with
    | .error diagnostic => some diagnostic
    | .ok _ => none

theorem collect_eq (outcomes : List (Except Diagnostic (Option ScannedFile))) :
    collect outcomes =
      if (failuresOf outcomes).isEmpty then
        .ok (outcomes.filterMap fun outcome => outcome.toOption.join)
      else .error (failuresOf outcomes) := rfl

/-- Up to the first failure the outcomes are the same. -/
theorem scan_outcomes_modes (tree : FileTree) (lines : Reading) (sources : List SourceFile) :
    (failuresOf (scanOutcomes tree lines .accumulate sources) = [] ∧
      scanOutcomes tree lines .failFast sources = scanOutcomes tree lines .accumulate sources) ∨
    ∃ first rest, failuresOf (scanOutcomes tree lines .accumulate sources) = first :: rest ∧
      failuresOf (scanOutcomes tree lines .failFast sources) = [first] := by
  induction sources with
  | nil => exact .inl ⟨rfl, rfl⟩
  | cons source rest induction =>
      cases outcome : scanSource tree lines source with
      | error diagnostic =>
          right
          refine ⟨diagnostic, failuresOf (scanOutcomes tree lines .accumulate rest), ?_, ?_⟩
          · simp only [scanOutcomes, outcome]
            rfl
          · simp only [scanOutcomes, outcome]
            rfl
      | ok found =>
          -- An outcome without a failure is put in front of the outcomes in both modes.
          have both (mode : ErrorMode) : scanOutcomes tree lines mode (source :: rest) =
              .ok found :: scanOutcomes tree lines mode rest := by
            cases mode <;> simp only [scanOutcomes, outcome]
          have skipped (mode : ErrorMode) :
              failuresOf (scanOutcomes tree lines mode (source :: rest)) =
                failuresOf (scanOutcomes tree lines mode rest) := by
            rw [both]
            rfl
          rw [skipped, skipped, both, both]
          rcases induction with ⟨none, same⟩ | some
          · exact .inl ⟨none, by rw [same]⟩
          · exact .inr some

theorem scan_files_in_step (tree : FileTree) (lines : Reading) (sources : List SourceFile) :
    InStep (scanFiles tree lines .accumulate sources) (scanFiles tree lines .failFast sources) := by
  unfold scanFiles
  rcases scan_outcomes_modes tree lines sources with ⟨none, same⟩ | ⟨first, rest, all, one⟩
  · rw [same, collect_eq, none]
    exact .done _
  · rw [collect_eq, collect_eq, all, one]
    exact .failed first rest

theorem analyze_in_step (tree : FileTree) (settings : Settings) :
    InStep (analyze tree (settings.withMode .accumulate))
      (analyze tree (settings.withMode .failFast)) := by
  rw [analyze_eq_stages, analyze_eq_stages]
  apply (InStep.or_fail _).bind
  intro sources
  apply (InStep.or_fail _).bind
  intro lines
  apply (scan_files_in_step tree lines sources).bind
  intro files
  apply (InStep.stop_on _).bind
  intro _
  apply (InStep.stop_on _).bind
  intro _
  apply (InStep.or_fail _).bind
  intro _
  exact .done _

/-- The two error modes agree on every project: an analysis succeeds in both modes with the same
result, or fails in both. With accumulation there is then at least one failure, and without it
the first of these is the only one. -/
theorem error_modes_agree (tree : FileTree) (settings : Settings) :
    (∀ analysis, analyze tree (settings.withMode .failFast) = .ok analysis ↔
      analyze tree (settings.withMode .accumulate) = .ok analysis) ∧
    (∀ failures, analyze tree (settings.withMode .failFast) = .error failures ↔
      ∃ first rest, analyze tree (settings.withMode .accumulate) = .error (first :: rest) ∧
        failures = [first]) ∧
    analyze tree (settings.withMode .accumulate) ≠ .error [] := by
  have step := analyze_in_step tree settings
  exact ⟨step.ok_iff, step.error_iff, step.error_ne_nil⟩

end Project

end FortranDeps

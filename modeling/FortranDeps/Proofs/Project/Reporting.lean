import FortranDeps.Project
import Mathlib

/-!
Reports in the two error modes. A run that takes items in one after the other takes down their
failures as they come, and without accumulation it is over at the first of them. Main statement:
such a run does what it would do if it looked at all items first and then took all failures down at
once, whatever the mode.
-/

namespace FortranDeps.Project

open Build FortranDeps.Units

/-- The failures of a result. -/
def reported {Value : Type} : Except (List Diagnostic) Value → List Diagnostic
  | .ok _ => []
  | .error failures => failures

theorem eq_ok_of_reported {Value : Type} {fallback : Value}
    {result : Except (List Diagnostic) Value} (complains : result ≠ .error [])
    (unreported : reported result = []) : result = .ok (result.toOption.getD fallback) := by
  cases result with
  | ok value => rfl
  | error failures =>
      obtain rfl : failures = [] := unreported
      exact absurd rfl complains

/-- A step with all of its failures: the state behind it and the failures so far. -/
def gatherStep {State Item : Type} (step : State → Item → Except (List Diagnostic) State)
    (state : State × List Diagnostic) (item : Item) : State × List Diagnostic :=
  ((step state.1 item).toOption.getD state.1, state.2 ++ reported (step state.1 item))

/-- All items taken in: the last state and the failures of all items that could not be. -/
def gather {State Item : Type} (step : State → Item → Except (List Diagnostic) State)
    (start : State) (items : List Item) : State × List Diagnostic :=
  items.foldl (gatherStep step) (start, [])

/-- A step that fails has something to report. -/
def Complains {State Item : Type} (step : State → Item → Except (List Diagnostic) State) : Prop :=
  ∀ state item, step state item ≠ .error []

section Gathering

variable {State Item : Type} {step : State → Item → Except (List Diagnostic) State}

theorem foldl_gather_step (items : List Item) (state : State) (failures : List Diagnostic) :
    items.foldl (gatherStep step) (state, failures) =
      ((gather step state items).1, failures ++ (gather step state items).2) := by
  unfold gather
  induction items generalizing state failures with
  | nil => rw [List.foldl_nil, List.foldl_nil, List.append_nil]
  | cons item rest induction =>
      simp only [List.foldl_cons, gatherStep, List.nil_append]
      rw [induction, induction _ (reported (step state item)), List.append_assoc]

theorem gather_cons (state : State) (item : Item) (rest : List Item) :
    gather step state (item :: rest) =
      ((gather step ((step state item).toOption.getD state) rest).1,
        reported (step state item) ++
          (gather step ((step state item).toOption.getD state) rest).2) := by
  rw [← foldl_gather_step]
  rfl

theorem gather_append_singleton (state : State) (items : List Item) (item : Item) :
    gather step state (items ++ [item]) = gatherStep step (gather step state items) item :=
  List.foldl_append

end Gathering

namespace Reporter

/-- Takes failures down, if there are any. -/
def absorb (reporter : Reporter) (failures : List Diagnostic) :
    Except (List Diagnostic) Reporter :=
  if failures.isEmpty then .ok reporter else reporter.record failures

theorem absorb_append (reporter : Reporter) (first second : List Diagnostic) :
    reporter.absorb (first ++ second) =
      reporter.absorb first >>= fun reporter => reporter.absorb second := by
  obtain ⟨mode, failures⟩ := reporter
  cases first with
  | nil => rfl
  | cons failure rest =>
      -- Without accumulation the run is over at the first failure, whatever comes after it.
      cases mode with
      | failFast => rfl
      | accumulate =>
          cases second with
          | nil => simp [absorb, record, bind, Except.bind]
          | cons other others => simp [absorb, record, bind, Except.bind]

theorem absorb_absorb {Result : Type} (reporter : Reporter) (first second : List Diagnostic)
    (next : Reporter → Except (List Diagnostic) Result) :
    (reporter.absorb first >>= fun reporter => reporter.absorb second >>= next) =
      reporter.absorb (first ++ second) >>= next := by
  rw [absorb_append, bind_assoc]

/-- One attempt: its failures are absorbed. -/
theorem attempt_eq {Value : Type} (reporter : Reporter) (fallback : Value)
    {result : Except (List Diagnostic) Value} (complains : result ≠ .error []) :
    reporter.attempt fallback result =
      (fun reporter => (result.toOption.getD fallback, reporter)) <$>
        reporter.absorb (reported result) := by
  cases result with
  | ok value => rfl
  | error failures =>
      cases failures with
      | nil => exact absurd rfl complains
      | cons first rest =>
          simp only [attempt, absorb, reported]
          cases reporter.record (first :: rest) <;> rfl

/-- A run over all items: their failures are absorbed, all at once. -/
theorem attempt_all_eq {State Item : Type} {step : State → Item → Except (List Diagnostic) State}
    (complains : Complains step) (reporter : Reporter) (state : State) (items : List Item) :
    reporter.attemptAll step state items =
      (fun reporter => ((gather step state items).1, reporter)) <$>
        reporter.absorb (gather step state items).2 := by
  induction items generalizing reporter state with
  | nil => rfl
  | cons item rest induction =>
      rw [attemptAll, attempt_eq reporter state (complains state item), gather_cons,
        absorb_append, bind_map_left, map_bind]
      simp only [induction]

end Reporter

/-! Stages: failures are taken down until the next checkpoint. -/

/-- The end of a stage with these failures. -/
def stopOn (mode : ErrorMode) (failures : List Diagnostic) : Except (List Diagnostic) Unit := do
  let reporter ← (Reporter.start mode).absorb failures
  let _ ← reporter.checkpoint
  return ()

/-- A stage that ends well leaves a reporter without failures to what comes next. -/
theorem checkpoint_absorbed {Result : Type} (mode : ErrorMode) (failures : List Diagnostic)
    (next : Reporter → Except (List Diagnostic) Result) :
    ((Reporter.start mode).absorb failures >>= fun reporter => reporter.checkpoint >>= next) =
      stopOn mode failures >>= fun _ => next (Reporter.start mode) := by
  cases failures with
  | nil => rfl
  | cons first rest => cases mode <;> rfl

theorem stop_on_eq_ok {mode : ErrorMode} {failures : List Diagnostic} {done : Unit} :
    stopOn mode failures = .ok done ↔ failures = [] := by
  cases failures with
  | nil => exact iff_of_true rfl rfl
  | cons first rest =>
      refine iff_of_false ?_ (List.cons_ne_nil first rest)
      intro impossible
      cases mode <;> cases impossible

theorem stop_on_accumulate {failures : List Diagnostic} (some : failures ≠ []) :
    stopOn .accumulate failures = .error failures := by
  cases failures with
  | nil => contradiction
  | cons first rest => rfl

theorem or_fail_ne_nil {Value : Type} (result : Except Diagnostic Value) :
    orFail result ≠ .error [] := by
  cases result with
  | ok value =>
      intro impossible
      cases impossible
  | error diagnostic =>
      intro impossible
      cases impossible

end FortranDeps.Project

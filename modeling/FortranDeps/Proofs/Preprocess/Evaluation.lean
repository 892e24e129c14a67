import FortranDeps.Proofs.Preprocess.Parts

/-!
Evaluation with any preparation of levels and any output of lines, also a preparation that
brings in new levels without end. It is therefore partial, the limit of evaluations that recur
a bounded number of times; with the preparations that a walk admits it is the walk. An outcome
keeps account of the levels that were given to the preparation.
-/

namespace FortranDeps.Preprocess

open Block

/-- What an evaluation does on the way, over a state of its own. -/
structure Handlers (State : Type) where
  isDefined : State → String → Bool
  prepare : List Item → State → Except Diagnostic (List Item) × State
  emit : Line → State → Line × State

/-- How an evaluation ends, with the levels that were given to the preparation. -/
structure Outcome (State : Type) where
  result : Except Diagnostic (List Line)
  state : State
  levels : List (List Item)

variable {State : Type}

namespace Outcome

/-- The outcome of a whole whose first part has written lines and prepared levels. -/
def after (lines : List Line) (levels : List (List Item)) (later : Outcome State) :
    Outcome State :=
  ⟨later.result.map (lines ++ ·), later.state, levels ++ later.levels⟩

theorem map_after_nil (later : Option (Outcome State)) : later.map (after [] []) = later := by
  cases later with
  | none => rfl
  | some outcome =>
      obtain ⟨result, state, levels⟩ := outcome
      cases result <;> rfl

theorem after_after (first second : List Line) (outer inner : List (List Item))
    (later : Outcome State) :
    (later.after second inner).after first outer =
      later.after (first ++ second) (outer ++ inner) := by
  obtain ⟨result, state, levels⟩ := later
  cases result <;> simp [after, Except.map]

theorem map_after_after (first second : List Line) (outer inner : List (List Item))
    (later : Option (Outcome State)) :
    (later.map (after second inner)).map (after first outer) =
      later.map (after (first ++ second) (outer ++ inner)) := by
  rw [Option.map_map]
  congr 1
  funext outcome
  exact after_after first second outer inner outcome

theorem map_after_eq_ok {first lines : List Line} {outer levels : List (List Item)}
    {later : Option (Outcome State)} {reached : State}
    (done : later.map (after first outer) = some ⟨.ok lines, reached, levels⟩) :
    ∃ second inner, later = some ⟨.ok second, reached, inner⟩ ∧ lines = first ++ second ∧
      levels = outer ++ inner := by
  obtain ⟨⟨result, state, inner⟩, rfl, same⟩ := Option.map_eq_some_iff.mp done
  cases result with
  | error diagnostic => cases same
  | ok second =>
      cases same
      exact ⟨second, inner, rfl, rfl, rfl⟩

end Outcome

/-- An evaluation that may have no outcome. -/
abbrev Evaluator (State : Type) : Type :=
  List Item → State → Option (Outcome State)

namespace Handlers

variable (handlers : Handlers State)

/-- The evaluation of a block from its chosen branch on, if `recur` evaluates the levels and
the items that it goes on to. -/
def resumeBy (recur : Evaluator State) (chosen after : List Item) (state : State) :
    Option (Outcome State) :=
  match handlers.prepare chosen state with
  | (.error diagnostic, state) => some ⟨.error diagnostic, state, [chosen]⟩
  | (.ok level, state) =>
      (recur level state).bind fun inner =>
        match inner.result with
        | .error _ => some { inner with levels := chosen :: inner.levels }
        | .ok lines => (recur after inner.state).map (Outcome.after lines (chosen :: inner.levels))

/-- The evaluation of a level up to what `recur` evaluates. -/
def step (recur : Evaluator State) : Evaluator State
  | [], state => some ⟨.ok [], state, []⟩
  | item :: rest, state =>
      match item.role with
      | .content =>
          (recur rest (handlers.emit item.line state).2).map
            (Outcome.after [(handlers.emit item.line state).1] [])
      | .passed => (recur rest state).map (Outcome.after [item.line] [])
      | .consumed => recur rest state
      | .misplaced fault => some ⟨.error (fault.at item.line.location), state, []⟩
      | .condition name wantsDefined =>
          match cut item.line.location rest 0 false with
          | .error diagnostic => some ⟨.error diagnostic, state, []⟩
          | .ok parts =>
              handlers.resumeBy recur
                (parts.branch (handlers.isDefined state name == wantsDefined)) parts.after state

/-- The evaluation of a level, without an outcome if it recurs more often than allowed. -/
def evaluateWithin : (steps : Nat) → Evaluator State
  | 0 => fun _ _ => none
  | steps + 1 => handlers.step (evaluateWithin steps)

open Classical in
/-- Evaluates a prepared level and everything nested in it. There is no outcome if the
preparation brings in new levels without end. -/
noncomputable def evaluate (items : List Item) (state : State) : Option (Outcome State) :=
  if ends : ∃ outcome steps, handlers.evaluateWithin steps items state = some outcome then
    some ends.choose
  else
    none

/-- The evaluation of a block from its chosen branch on. -/
noncomputable def resume (chosen after : List Item) (state : State) : Option (Outcome State) :=
  handlers.resumeBy handlers.evaluate chosen after state

/-! Evaluation is a fixed point of its steps. -/

section Limit

variable {handlers} {recur : Evaluator State} {items : List Item} {state : State}
  {outcome : Outcome State}

/-- What rests on finitely many outcomes of an evaluation: it holds for every other one that
has them as well. -/
def Finitary (recur : Evaluator State) (holds : Evaluator State → Prop) : Prop :=
  ∃ calls : List (List Item × State × Outcome State),
    (∀ call ∈ calls, recur call.1 call.2.1 = some call.2.2) ∧
    ∀ other : Evaluator State,
      (∀ call ∈ calls, other call.1 call.2.1 = some call.2.2) → holds other

theorem Finitary.of_all {holds : Evaluator State → Prop} (all : ∀ other, holds other) :
    Finitary recur holds :=
  ⟨[], by simp, fun other _ => all other⟩

theorem Finitary.of_one {holds : Evaluator State → Prop}
    (done : recur items state = some outcome)
    (enough : ∀ other : Evaluator State, other items state = some outcome → holds other) :
    Finitary recur holds :=
  ⟨[(items, state, outcome)], by simpa using done,
    fun other same => enough other (by simpa using same)⟩

theorem resume_by_finitary {chosen after : List Item}
    (done : handlers.resumeBy recur chosen after state = some outcome) :
    Finitary recur fun other => handlers.resumeBy other chosen after state = some outcome := by
  unfold resumeBy at done ⊢
  cases preparation : handlers.prepare chosen state with
  | mk result prepared =>
      rw [preparation] at done
      cases result with
      | error diagnostic => exact .of_all fun _ => done
      | ok level =>
          obtain ⟨inner, branch, later⟩ := Option.bind_eq_some_iff.mp done
          cases ended : inner.result with
          | error diagnostic =>
              simp only [ended] at later
              apply Finitary.of_one branch
              intro other same
              simp only [same, Option.bind_some, ended, later]
          | ok lines =>
              simp only [ended] at later
              obtain ⟨behind, found, rfl⟩ := Option.map_eq_some_iff.mp later
              refine ⟨[(level, prepared, inner), (after, inner.state, behind)], ?_, ?_⟩
              · simpa using ⟨branch, found⟩
              · intro other same
                obtain ⟨inside, following⟩ : other level prepared = some inner ∧
                    other after inner.state = some behind := by simpa using same
                simp only [inside, Option.bind_some, ended, following, Option.map_some]

theorem step_finitary (done : handlers.step recur items state = some outcome) :
    Finitary recur fun other => handlers.step other items state = some outcome := by
  cases items with
  | nil => exact .of_all fun _ => done
  | cons item rest =>
      cases role : item.role with
      | content | passed =>
          simp only [step, role] at done ⊢
          obtain ⟨later, found, rfl⟩ := Option.map_eq_some_iff.mp done
          apply Finitary.of_one found
          intro other same
          rw [same, Option.map_some]
      | consumed =>
          simp only [step, role] at done ⊢
          exact .of_one done fun _ same => same
      | misplaced fault =>
          simp only [step, role] at done ⊢
          exact .of_all fun _ => done
      | condition name wantsDefined =>
          simp only [step, role] at done ⊢
          cases found : cut item.line.location rest 0 false with
          | error diagnostic =>
              rw [found] at done
              exact .of_all fun _ => done
          | ok parts =>
              rw [found] at done
              exact resume_by_finitary done

theorem evaluate_within_mono {fewer more : Nat} (le : fewer ≤ more)
    (done : handlers.evaluateWithin fewer items state = some outcome) :
    handlers.evaluateWithin more items state = some outcome := by
  induction fewer generalizing more items state outcome with
  | zero => cases done
  | succ fewer induction =>
      cases more with
      | zero => omega
      | succ more =>
          obtain ⟨calls, met, enough⟩ := step_finitary done
          exact enough _ fun call member => induction (Nat.le_of_succ_le_succ le) (met call member)

theorem evaluate_eq_some :
    handlers.evaluate items state = some outcome ↔
      ∃ steps, handlers.evaluateWithin steps items state = some outcome := by
  unfold evaluate
  constructor
  · intro done
    split at done
    · next ends =>
        cases done
        exact ends.choose_spec
    · cases done
  · rintro ⟨steps, done⟩
    have ends : ∃ outcome steps, handlers.evaluateWithin steps items state = some outcome :=
      ⟨outcome, steps, done⟩
    obtain ⟨others, chosen⟩ := ends.choose_spec
    have first := evaluate_within_mono (Nat.le_max_left steps others) done
    have second := evaluate_within_mono (Nat.le_max_right steps others) chosen
    rw [dif_pos ends, ← second, first]

theorem steps_of_calls {calls : List (List Item × State × Outcome State)}
    (met : ∀ call ∈ calls, handlers.evaluate call.1 call.2.1 = some call.2.2) :
    ∃ steps, ∀ call ∈ calls, handlers.evaluateWithin steps call.1 call.2.1 = some call.2.2 := by
  induction calls with
  | nil => exact ⟨0, by simp⟩
  | cons call calls induction =>
      obtain ⟨own, first⟩ := evaluate_eq_some.mp (met call List.mem_cons_self)
      obtain ⟨steps, others⟩ := induction fun other member =>
        met other (List.mem_cons_of_mem call member)
      exists max own steps
      intro other member
      rcases List.mem_cons.mp member with rfl | member
      · exact evaluate_within_mono (Nat.le_max_left own steps) first
      · exact evaluate_within_mono (Nat.le_max_right own steps) (others other member)

variable (handlers) in
theorem evaluate_eq_step (items : List Item) (state : State) :
    handlers.evaluate items state = handlers.step handlers.evaluate items state := by
  apply Option.ext
  intro outcome
  rw [evaluate_eq_some]
  constructor
  · rintro ⟨steps, done⟩
    cases steps with
    | zero => cases done
    | succ steps =>
        obtain ⟨calls, met, enough⟩ := step_finitary done
        exact enough _ fun call member => evaluate_eq_some.mpr ⟨steps, met call member⟩
  · intro done
    obtain ⟨calls, met, enough⟩ := step_finitary done
    obtain ⟨steps, within⟩ := steps_of_calls met
    exact ⟨steps + 1, enough _ within⟩

/-- What a step preserves holds for every outcome. -/
theorem evaluate_induction {holds : List Item → State → Outcome State → Prop}
    (preserved : ∀ recur : Evaluator State,
      (∀ items state outcome, recur items state = some outcome → holds items state outcome) →
      ∀ items state outcome, handlers.step recur items state = some outcome →
        holds items state outcome)
    (done : handlers.evaluate items state = some outcome) : holds items state outcome := by
  obtain ⟨steps, within⟩ := evaluate_eq_some.mp done
  clear done
  induction steps generalizing items state outcome with
  | zero => cases within
  | succ steps induction =>
      exact preserved _ (fun _ _ _ => induction) items state outcome within

end Limit

/-! One equation for each role. -/

section Equations

variable {item : Item} (rest : List Item) (state : State)

theorem evaluate_nil : handlers.evaluate [] state = some ⟨.ok [], state, []⟩ := by
  rw [evaluate_eq_step, step]

theorem evaluate_content (role : item.role = .content) :
    handlers.evaluate (item :: rest) state =
      (handlers.evaluate rest (handlers.emit item.line state).2).map
        (Outcome.after [(handlers.emit item.line state).1] []) := by
  rw [evaluate_eq_step, step, role]

theorem evaluate_passed (role : item.role = .passed) :
    handlers.evaluate (item :: rest) state =
      (handlers.evaluate rest state).map (Outcome.after [item.line] []) := by
  rw [evaluate_eq_step, step, role]

theorem evaluate_consumed (role : item.role = .consumed) :
    handlers.evaluate (item :: rest) state = handlers.evaluate rest state := by
  rw [evaluate_eq_step, step, role]

theorem evaluate_misplaced {fault : StructureFault} (role : item.role = .misplaced fault) :
    handlers.evaluate (item :: rest) state =
      some ⟨.error (fault.at item.line.location), state, []⟩ := by
  rw [evaluate_eq_step, step, role]

theorem evaluate_block {name : String} {wantsDefined : Bool}
    (role : item.role = .condition name wantsDefined) :
    handlers.evaluate (item :: rest) state =
      match cut item.line.location rest 0 false with
      | .error diagnostic => some ⟨.error diagnostic, state, []⟩
      | .ok parts =>
          handlers.resume (parts.branch (handlers.isDefined state name == wantsDefined))
            parts.after state := by
  rw [evaluate_eq_step, step, role]
  rfl

end Equations

theorem resume_of_ok {chosen level : List Item} {state prepared walked : State}
    {inner : List Line} {levels : List (List Item)}
    (preparation : handlers.prepare chosen state = (.ok level, prepared))
    (branch : handlers.evaluate level prepared = some ⟨.ok inner, walked, levels⟩)
    (after : List Item) :
    handlers.resume chosen after state =
      (handlers.evaluate after walked).map (Outcome.after inner (chosen :: levels)) := by
  unfold resume resumeBy
  rw [preparation]
  simp only [branch, Option.bind_some]

/-- A block that is evaluated without a failure has a branch that is. -/
theorem branch_of_resume {chosen after : List Item} {state reached : State} {lines : List Line}
    {levels : List (List Item)}
    (done : handlers.resume chosen after state = some ⟨.ok lines, reached, levels⟩) :
    ∃ level prepared inner walked inside,
      handlers.prepare chosen state = (.ok level, prepared) ∧
        handlers.evaluate level prepared = some ⟨.ok inner, walked, inside⟩ := by
  unfold resume resumeBy at done
  split at done
  · cases done
  · next level prepared preparation =>
      obtain ⟨⟨result, walked, inside⟩, branch, later⟩ := Option.bind_eq_some_iff.mp done
      cases result with
      | error diagnostic => cases later
      | ok inner => exact ⟨level, prepared, inner, walked, inside, preparation, branch⟩

/-- Items behind a list that is evaluated without a failure are evaluated from the state that
it ends in. -/
theorem evaluate_append {before : List Item} {state reached : State} {lines : List Line}
    {levels : List (List Item)}
    (done : handlers.evaluate before state = some ⟨.ok lines, reached, levels⟩)
    (rest : List Item) :
    handlers.evaluate (before ++ rest) state =
      (handlers.evaluate rest reached).map (Outcome.after lines levels) := by
  -- Only what follows an item or a block grows, so the length of the list carries the induction.
  induction count : before.length using Nat.strong_induction_on
    generalizing before state lines levels with
  | h count induction =>
      subst count
      cases before with
      | nil =>
          rw [evaluate_nil] at done
          cases done
          rw [List.nil_append, Outcome.map_after_nil]
      | cons item before =>
          have next : before.length < (item :: before).length := Nat.lt_succ_self _
          rw [List.cons_append]
          cases role : item.role with
          | content =>
              rw [evaluate_content _ _ _ role] at done ⊢
              obtain ⟨more, inner, later, rfl, rfl⟩ := Outcome.map_after_eq_ok done
              rw [induction _ next later rfl, Outcome.map_after_after, List.nil_append]
          | passed =>
              rw [evaluate_passed _ _ _ role] at done ⊢
              obtain ⟨more, inner, later, rfl, rfl⟩ := Outcome.map_after_eq_ok done
              rw [induction _ next later rfl, Outcome.map_after_after, List.nil_append]
          | consumed =>
              rw [evaluate_consumed _ _ _ role] at done ⊢
              exact induction _ next done rfl
          | misplaced fault =>
              rw [evaluate_misplaced _ _ _ role] at done
              cases done
          | condition name wantsDefined =>
              rw [evaluate_block _ _ _ role] at done ⊢
              cases found : cut item.line.location before 0 false with
              | error diagnostic =>
                  rw [found] at done
                  cases done
              | ok parts =>
                  have shorter := (compose_of_cut found).1.length_after
                  rw [cut_append found rest]
                  rw [found] at done
                  obtain ⟨level, prepared, inner, walked, inside, preparation, branch⟩ :=
                    handlers.branch_of_resume done
                  simp only at done
                  rw [handlers.resume_of_ok preparation branch] at done
                  obtain ⟨more, behind, later, rfl, rfl⟩ := Outcome.map_after_eq_ok done
                  refine (handlers.resume_of_ok preparation branch (parts.after ++ rest)).trans ?_
                  rw [induction _ (shorter.trans next) later rfl, Outcome.map_after_after]

/-- A kind of items that the preparation keeps: from a level that holds nothing else it makes
a level that holds nothing else. -/
def Keeps (own : Item → Prop) : Prop :=
  ∀ level state prepared, (∀ item ∈ level, own item) →
    (handlers.prepare level state).1 = .ok prepared → ∀ item ∈ prepared, own item

/-- If nothing but items of a kept kind is evaluated, nothing else is ever prepared. -/
theorem levels_of_evaluate {own : Item → Prop} (keeps : handlers.Keeps own) {items : List Item}
    {state : State} {outcome : Outcome State}
    (done : handlers.evaluate items state = some outcome) (all : ∀ item ∈ items, own item) :
    ∀ level ∈ outcome.levels, ∀ item ∈ level, own item := by
  revert all
  apply evaluate_induction ?_ done
  clear done
  intro recur induction items state outcome done all
  cases items with
  | nil =>
      cases done
      intro level member
      cases member
  | cons item rest =>
      have others : ∀ item ∈ rest, own item := fun item member =>
        all item (List.mem_cons_of_mem _ member)
      cases role : item.role with
      | content | passed =>
          simp only [step, role] at done
          obtain ⟨later, found, rfl⟩ := Option.map_eq_some_iff.mp done
          exact induction rest _ later found others
      | consumed =>
          simp only [step, role] at done
          exact induction rest state outcome done others
      | misplaced fault =>
          simp only [step, role] at done
          cases done
          intro level member
          cases member
      | condition name wantsDefined =>
          simp only [step, role] at done
          split at done
          · cases done
            intro level member
            cases member
          · next parts found =>
              have composed := (compose_of_cut found).1
              have chosen : ∀ item ∈ parts.branch (handlers.isDefined state name == wantsDefined),
                  own item := fun item member => others item (composed.mem_of_branch member)
              unfold resumeBy at done
              split at done
              · cases done
                intro level member
                rw [List.mem_singleton.mp member]
                exact chosen
              · next level prepared preparation =>
                  obtain ⟨inner, branch, done⟩ := Option.bind_eq_some_iff.mp done
                  have inside := induction level prepared inner branch
                    (keeps _ state level chosen (by rw [preparation]))
                  split at done
                  · cases done
                    intro level member
                    rcases List.mem_cons.mp member with rfl | nested
                    · exact chosen
                    · exact inside level nested
                  · obtain ⟨later, rest, rfl⟩ := Option.map_eq_some_iff.mp done
                    intro level member
                    rcases List.mem_append.mp member with early | behind
                    · rcases List.mem_cons.mp early with rfl | nested
                      · exact chosen
                      · exact inside level nested
                    · exact induction parts.after inner.state later rest
                        (fun item member => others item (composed.mem_of_after member))
                        level behind

end Handlers

namespace Walker

variable (walker : Walker State)

def handlers : Handlers State where
  isDefined := walker.isDefined
  prepare := walker.prepare
  emit line state := (walker.emit line state, state)

/-- With the preparations that a walk admits, evaluation is the walk. -/
theorem evaluate_handlers (items : List Item) (state : State) :
    ∃ levels, walker.handlers.evaluate items state =
      some ⟨(walker.walk items state).1, (walker.walk items state).2, levels⟩ := by
  induction items, state using walk_induction walker with
  | nil state => exact ⟨[], by rw [Handlers.evaluate_nil, walk_nil]⟩
  | content item rest state role induction =>
      obtain ⟨levels, later⟩ := induction
      exists levels
      rw [Handlers.evaluate_content _ _ _ role, walk_content _ role]
      exact congrArg (Option.map _) later
  | passed item rest state role induction =>
      obtain ⟨levels, later⟩ := induction
      exists levels
      rw [Handlers.evaluate_passed _ _ _ role, walk_passed _ role, later]
      rfl
  | consumed item rest state role induction =>
      obtain ⟨levels, later⟩ := induction
      exists levels
      rw [Handlers.evaluate_consumed _ _ _ role, walk_consumed _ role, later]
  | misplaced item rest state fault role =>
      exact ⟨[], by rw [Handlers.evaluate_misplaced _ _ _ role, walk_misplaced _ role]⟩
  | block item rest state name wantsDefined role induction =>
      rw [Handlers.evaluate_block _ _ _ role, walk_block _ role]
      cases found : cut item.line.location rest 0 false with
      | error diagnostic => exact ⟨[], rfl⟩
      | ok parts =>
          simp only
          have same : walker.handlers.isDefined = walker.isDefined := rfl
          rw [same]
          generalize chosen : parts.branch (walker.isDefined state name == wantsDefined) = branch
          cases preparation : walker.prepare branch state with
          | mk result prepared =>
              have preparing : walker.handlers.prepare branch state = (result, prepared) :=
                preparation
              cases result with
              | error diagnostic =>
                  exists [branch]
                  rw [Handlers.resume, Handlers.resumeBy, preparing]
              | ok level =>
                  rw [← chosen] at preparation
                  obtain ⟨⟨levels, inside⟩, behind⟩ :=
                    induction parts level prepared found preparation
                  simp only
                  cases walked : walker.walk level prepared with
                  | mk result final =>
                      rw [walked] at inside
                      cases result with
                      | error diagnostic =>
                          exists branch :: levels
                          rw [Handlers.resume, Handlers.resumeBy, preparing]
                          simp only [inside, Option.bind_some]
                      | ok inner =>
                          obtain ⟨others, later⟩ := behind inner final walked
                          exists branch :: levels ++ others
                          rw [Handlers.resume_of_ok _ preparing inside, later]
                          rfl

end Walker

end FortranDeps.Preprocess

import FortranDeps.Proofs.Preprocess.Nesting

/-!
Two readers of the structure of a source, from its first line to its last, with the open blocks on
a stack. For the machine an opening pushes a block, the first alternative turns it, an end pops it,
and everything else is refused. The survey knows in addition which branches are selected, and
passes over a second alternative in a block that stands in a discarded branch.
-/

namespace FortranDeps.Preprocess

open Block

/-- The branch of an open block that is being read. -/
inductive Side where
  | first
  | second
  deriving DecidableEq, Repr

/-- Reads an item with the sides of the open blocks, the innermost one first. -/
def readItem (sides : List Side) (item : Item) : Option (List Side) :=
  match item.directive, sides with
  | some (.ifDefined _), _ | some (.ifUndefined _), _ => some (.first :: sides)
  | some .otherwise, .first :: outer => some (.second :: outer)
  | some .otherwise, _ => none
  | some .endIf, _ :: outer => some outer
  | some .endIf, [] => none
  | some (.unsupported _), _ => none
  | _, _ => some sides

/-- Every item can be read, and no block is open at the end. -/
def Accepted (items : List Item) : Prop := items.foldlM readItem [] = some []

instance (items : List Item) : Decidable (Accepted items) :=
  inferInstanceAs (Decidable (items.foldlM readItem [] = some []))

/-- An open block: whether it stands in no discarded branch, whether its test selects the first
branch, and whether its alternative has been met. -/
structure Frame where
  live : Bool
  holds : Bool
  turned : Bool
  deriving DecidableEq, Repr

namespace Frame

/-- Whether the branch that is being read is the selected one. -/
def chosen (frame : Frame) : Bool := frame.live && (frame.holds != frame.turned)

def turn (frame : Frame) : Frame := { frame with turned := true }

end Frame

/-- Whether the items read next stand in no discarded branch. -/
def reached (frames : List Frame) : Bool := frames.head?.all Frame.chosen

/-- The items up to the alternative or the end that closes the branch they start in. -/
def branchItems : List Item → (depth : Nat) → List Item
  | [], _ => []
  | item :: rest, depth =>
      match item.directive, depth with
      | some .otherwise, 0 | some .endIf, 0 => []
      | _, _ => item :: branchItems rest (depthAfter item depth)

/-- The table after the definitions of the branch that the items start in. -/
def branchTable (items : List Item) (table : MacroTable) : MacroTable :=
  (applyDefinitions (branchItems items 0) 0 table).2

/-- The definitions of a branch are applied where it is entered, if it is selected. -/
def Frame.enter (frame : Frame) (branch : List Item) (table : MacroTable) : MacroTable :=
  if frame.chosen then branchTable branch table else table

/-- Reads items with the open blocks and the table that has been reached. The result is the
number of further alternatives that are passed over, or none if the items are refused. -/
def survey : List Item → List Frame → MacroTable → Option Nat
  | [], [], _ => some 0
  | [], _ :: _, _ => none
  | item :: rest, frames, table =>
      match item.directive, frames with
      | some (.ifDefined name), _ =>
          let frame : Frame := ⟨reached frames, table.isDefined name, false⟩
          survey rest (frame :: frames) (frame.enter rest table)
      | some (.ifUndefined name), _ =>
          let frame : Frame := ⟨reached frames, !table.isDefined name, false⟩
          survey rest (frame :: frames) (frame.enter rest table)
      | some .otherwise, frame :: outer =>
          if frame.turned then
            if frame.live then none else (survey rest (frame :: outer) table).map (1 + ·)
          else survey rest (frame.turn :: outer) (frame.turn.enter rest table)
      | some .endIf, _ :: outer => survey rest outer table
      | some .otherwise, [] | some .endIf, [] | some (.unsupported _), _ => none
      | _, _ => survey rest frames table

def surveySource (items : List Item) (seeds : MacroTable) : Option Nat :=
  survey items [] (branchTable items seeds)

/-! One equation for each kind of item. -/

section Equations

variable {item : Item} (rest : List Item) (frames : List Frame) (table : MacroTable)

theorem survey_inert (inert : item.isInert = true) :
    survey (item :: rest) frames table = survey rest frames table := by
  unfold Item.isInert at inert
  cases found : item.directive with
  | none => simp only [survey, found]
  | some directive => cases directive <;> simp_all [survey]

theorem survey_opening {name : String} {wantsDefined : Bool}
    (role : item.role = .condition name wantsDefined) :
    survey (item :: rest) frames table =
      survey rest (⟨reached frames, table.isDefined name == wantsDefined, false⟩ :: frames)
        (Frame.enter ⟨reached frames, table.isDefined name == wantsDefined, false⟩ rest table) := by
  unfold Item.role at role
  split at role
  all_goals cases role
  · next directive => simp [survey, directive]
  · next directive => simp [survey, directive]

theorem survey_alternative (turns : item.directive = some .otherwise) (frame : Frame) :
    survey (item :: rest) (frame :: frames) table =
      if frame.turned then
        if frame.live then none else (survey rest (frame :: frames) table).map (1 + ·)
      else survey rest (frame.turn :: frames) (frame.turn.enter rest table) := by
  simp only [survey, turns]

theorem survey_end (closes : item.directive = some .endIf) (frame : Frame) :
    survey (item :: rest) (frame :: frames) table = survey rest frames table := by
  simp only [survey, closes]

theorem survey_stray (stray : item.directive = some .otherwise ∨ item.directive = some .endIf) :
    survey (item :: rest) [] table = none := by
  rcases stray with turns | closes
  · simp only [survey, turns]
  · simp only [survey, closes]

theorem survey_unsupported {keyword : String}
    (unsupported : item.directive = some (.unsupported keyword)) :
    survey (item :: rest) frames table = none := by
  simp only [survey, unsupported]

end Equations

/-! The machine and the survey. -/

def Frame.side (frame : Frame) : Side := if frame.turned then .second else .first

/-- The machine accepts exactly the items in which the survey passes over nothing. -/
theorem survey_eq_zero_iff (items : List Item) (frames : List Frame) (table : MacroTable) :
    survey items frames table = some 0 ↔
      items.foldlM readItem (frames.map Frame.side) = some [] := by
  induction items generalizing frames table with
  | nil => cases frames <;> simp [survey]
  | cons item rest induction =>
      rw [List.foldlM_cons]
      rcases item.kind_cases with inert | opens | turns | closes | ⟨keyword, unsupported⟩
      · have same : readItem (frames.map Frame.side) item = some (frames.map Frame.side) := by
          unfold Item.isInert at inert
          unfold readItem
          split <;> simp_all
        rw [survey_inert _ _ _ inert, induction, same]
        rfl
      · rcases Item.directive_of_opens_block opens with ⟨name, directive⟩ | ⟨name, directive⟩
        · simp only [survey, directive, induction, readItem]
          rfl
        · simp only [survey, directive, induction, readItem]
          rfl
      · cases frames with
        | nil => simp [survey_stray _ _ (.inl turns), readItem, turns]
        | cons frame outer =>
            rw [survey_alternative _ _ _ turns]
            cases met : frame.turned with
            | false =>
                simp [induction, readItem, turns, Frame.side, Frame.turn, met]
            | true =>
                cases live : frame.live <;> simp [readItem, turns, Frame.side, met]
      · cases frames with
        | nil => simp [survey_stray _ _ (.inr closes), readItem, closes]
        | cons frame outer =>
            rw [survey_end _ _ _ closes, induction]
            simp [readItem, closes]
      · simp [survey_unsupported _ _ _ unsupported, readItem, unsupported]

end FortranDeps.Preprocess

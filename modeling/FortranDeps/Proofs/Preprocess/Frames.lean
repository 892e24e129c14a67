import FortranDeps.Proofs.Loop
import FortranDeps.Proofs.Preprocess.Nesting

/-!
The walk as a loop. The levels that are open stand on a stack, each with the position of its next
item; a turn of the loop passes an item, closes the innermost level or opens a level for the branch
of a block. Every run of the loop comes to an end, although a branch can become longer than the
level that it is taken from when files are included, and it ends with the result of the walk.
-/

namespace FortranDeps.Preprocess

open Block

/-- An open level with the position of its next item. -/
structure LevelFrame where
  items : List Item
  cursor : Nat

def LevelFrame.pending (frame : LevelFrame) : List Item := frame.items.drop frame.cursor

/-- The state of the loop, with the innermost level first. -/
structure Traversal (State : Type) where
  frames : List LevelFrame
  output : List Line
  state : State

/-- The state in which the loop starts on a level. -/
def Traversal.start {State : Type} (level : List Item) (state : State) : Traversal State :=
  ⟨[⟨level, 0⟩], [], state⟩

/-! Positions in a level and the parts of a block. -/

namespace Block

theorem slice_drop (items : List Item) (cursor : Nat) (range : Nat × Nat) :
    slice items (cursor + range.1, cursor + range.2) = slice (items.drop cursor) range := by
  unfold slice
  rw [List.drop_drop, Nat.add_sub_add_left]

section Shift

variable (parts : Parts) (cursor : Nat)

theorem ending_place :
    (parts.place cursor none (cursor + 1)).ending = cursor + (parts.place 0 none 1).ending := by
  simp only [Parts.place]
  omega

theorem then_range_place :
    (parts.place cursor none (cursor + 1)).thenRange =
      (cursor + (parts.place 0 none 1).thenRange.1,
        cursor + (parts.place 0 none 1).thenRange.2) := by
  obtain ⟨first, second, after⟩ := parts
  cases second <;> simp [thenRange, Parts.place] <;> omega

theorem else_range_place :
    (parts.place cursor none (cursor + 1)).elseRange =
      (cursor + (parts.place 0 none 1).elseRange.1,
        cursor + (parts.place 0 none 1).elseRange.2) := by
  obtain ⟨first, second, after⟩ := parts
  cases second <;> simp [elseRange, Parts.place] <;> omega

end Shift

/-- A branch and what follows the block leave out the end of the block at least. -/
theorem Parts.Compose.branch_after {parts : Parts} {items : List Item}
    (composed : parts.Compose items) (holds : Bool) :
    (parts.branch holds ++ parts.after).Sublist items ∧
      (parts.branch holds).length + parts.after.length < items.length := by
  obtain ⟨first, second, after⟩ := parts
  obtain ⟨ending, shape⟩ := composed
  have behind : after.Sublist (ending :: after) := List.sublist_cons_self _ _
  cases second with
  | none =>
      rw [shape]
      cases holds with
      | true =>
          constructor
          · exact (List.Sublist.refl first).append behind
          · simp [Parts.branch]
      | false =>
          constructor
          · exact behind.trans (List.sublist_append_right _ _)
          · simp [Parts.branch]
            omega
  | some second =>
      obtain ⟨middle, rfl⟩ := shape
      have later : (second ++ after).Sublist (middle :: (second ++ ending :: after)) :=
        ((List.Sublist.refl second).append behind).cons middle
      cases holds with
      | true =>
          constructor
          · exact (List.Sublist.refl first).append
              (((List.sublist_append_right second after).trans later))
          · simp [Parts.branch]
            omega
      | false =>
          constructor
          · exact later.trans (List.sublist_append_right _ _)
          · simp [Parts.branch]
            omega

end Block

namespace LevelFrame

/-- The level with the item at its cursor passed. -/
def next (frame : LevelFrame) : LevelFrame := { frame with cursor := frame.cursor + 1 }

/-- The level with the block that is opened at its cursor passed. -/
def behind (frame : LevelFrame) (parts : Parts) : LevelFrame :=
  { frame with cursor := (parts.place frame.cursor none (frame.cursor + 1)).ending + 1 }

variable {frame : LevelFrame} {item : Item} {rest : List Item}
  (pending : frame.pending = item :: rest)

include pending

theorem pending_next : frame.next.pending = rest := by
  have split : frame.items.drop frame.cursor = item :: rest := pending
  unfold LevelFrame.pending next
  rw [← List.drop_drop, split]
  rfl

theorem pending_behind {parts : Parts} (composed : parts.Compose rest) :
    (frame.behind parts).pending = parts.after := by
  have split : frame.items.drop frame.cursor = item :: rest := pending
  unfold LevelFrame.pending behind
  rw [ending_place, Nat.add_assoc, ← List.drop_drop, split, List.drop_succ_cons,
    drop_ending composed]

end LevelFrame

namespace Walker

variable {State : Type} (walker : Walker State)

/-- One turn of the loop: its result at the end, and otherwise the state to go on with. -/
def turn (traversal : Traversal State) :
    (Except Diagnostic (List Line) × State) ⊕ Traversal State :=
  match traversal with
  | ⟨[], output, state⟩ => .inl (.ok output, state)
  | ⟨frame :: outer, output, state⟩ =>
      match frame.pending with
      | [] => .inr ⟨outer, output, state⟩
      | item :: rest =>
          match item.role with
          | .content => .inr ⟨frame.next :: outer, output ++ [walker.emit item.line state], state⟩
          | .passed => .inr ⟨frame.next :: outer, output ++ [item.line], state⟩
          | .consumed => .inr ⟨frame.next :: outer, output, state⟩
          | .misplaced fault => .inl (.error (fault.at item.line.location), state)
          | .condition name wantsDefined =>
              match close frame.cursor item.line.location rest (frame.cursor + 1) 0 none with
              | .error diagnostic => .inl (.error diagnostic, state)
              | .ok block =>
                  let chosen := walker.branch state frame.items block name wantsDefined
                  match walker.prepare chosen state with
                  | (.error diagnostic, state) => .inl (.error diagnostic, state)
                  | (.ok level, state) =>
                      let behind : LevelFrame := { frame with cursor := block.ending + 1 }
                      .inr ⟨⟨level, 0⟩ :: behind :: outer, output, state⟩

/-! What a turn does. -/

section Turn

variable {frame : LevelFrame} {item : Item} {rest : List Item} (outer : List LevelFrame)
  (output : List Line) (state : State)

theorem turn_closed (pending : frame.pending = []) :
    walker.turn ⟨frame :: outer, output, state⟩ = .inr ⟨outer, output, state⟩ := by
  simp only [turn, pending]

theorem turn_straight (pending : frame.pending = item :: rest)
    (straight : item.role = .content ∨ item.role = .passed ∨ item.role = .consumed) :
    walker.turn ⟨frame :: outer, output, state⟩ =
      .inr ⟨frame.next :: outer,
        output ++ walker.output item state, state⟩ := by
  rcases straight with role | role | role <;>
    simp only [turn, pending, role, Walker.output, List.append_nil]

theorem turn_misplaced (pending : frame.pending = item :: rest) {fault : StructureFault}
    (role : item.role = .misplaced fault) :
    walker.turn ⟨frame :: outer, output, state⟩ =
      .inl (.error (fault.at item.line.location), state) := by
  simp only [turn, pending, role]

theorem branch_place (pending : frame.pending = item :: rest) {parts : Parts}
    (composed : parts.Compose rest) (name : String) (wantsDefined : Bool) :
    walker.branch state frame.items (parts.place frame.cursor none (frame.cursor + 1)) name
        wantsDefined =
      parts.branch (walker.isDefined state name == wantsDefined) := by
  have split : frame.items.drop frame.cursor = item :: rest := pending
  unfold branch Parts.branch
  rw [then_range_place, else_range_place, slice_drop, slice_drop, split,
    slice_then_range composed, slice_else_range composed]

theorem turn_block (pending : frame.pending = item :: rest) {name : String} {wantsDefined : Bool}
    (role : item.role = .condition name wantsDefined) :
    walker.turn ⟨frame :: outer, output, state⟩ =
      match cut item.line.location rest 0 false with
      | .error diagnostic => .inl (.error diagnostic, state)
      | .ok parts =>
          match walker.prepare (parts.branch (walker.isDefined state name == wantsDefined))
              state with
          | (.error diagnostic, state) => .inl (.error diagnostic, state)
          | (.ok level, state) =>
              .inr ⟨⟨level, 0⟩ :: frame.behind parts :: outer, output, state⟩ := by
  simp only [turn, pending, role, close_eq_cut, Option.isSome_none]
  cases found : cut item.line.location rest 0 false with
  | error diagnostic => rfl
  | ok parts =>
      have composed := (compose_of_cut found).1
      simp only [Except.map, branch_place walker state pending composed]
      rfl

end Turn

/-- The three ways in which the loop goes on. -/
inductive Move : Traversal State → Traversal State → Prop where
  | closing {frame : LevelFrame} (outer : List LevelFrame) (output : List Line) (state : State)
      (pending : frame.pending = []) :
      Move ⟨frame :: outer, output, state⟩ ⟨outer, output, state⟩
  | passing {frame : LevelFrame} {item : Item} {rest : List Item} (outer : List LevelFrame)
      (output : List Line) (state : State) (pending : frame.pending = item :: rest)
      (straight : item.role = .content ∨ item.role = .passed ∨ item.role = .consumed) :
      Move ⟨frame :: outer, output, state⟩
        ⟨frame.next :: outer,
          output ++ walker.output item state, state⟩
  | opening {frame : LevelFrame} {item : Item} {rest level : List Item} {name : String}
      {wantsDefined : Bool} {parts : Parts} {state prepared : State} (outer : List LevelFrame)
      (output : List Line) (pending : frame.pending = item :: rest)
      (role : item.role = .condition name wantsDefined)
      (found : cut item.line.location rest 0 false = .ok parts)
      (preparation : walker.prepare
        (parts.branch (walker.isDefined state name == wantsDefined)) state =
          (.ok level, prepared)) :
      Move ⟨frame :: outer, output, state⟩
        ⟨⟨level, 0⟩ :: frame.behind parts :: outer, output, prepared⟩

theorem move_of_turns {earlier later : Traversal State}
    (turns : Loop.Turns walker.turn earlier later) : walker.Move earlier later := by
  obtain ⟨frames, output, state⟩ := earlier
  unfold Loop.Turns at turns
  cases frames with
  | nil => cases turns
  | cons frame outer =>
      cases pending : frame.pending with
      | nil =>
          rw [turn_closed _ _ _ _ pending] at turns
          cases turns
          exact .closing outer output state pending
      | cons item rest =>
          cases role : item.role with
          | content | passed | consumed =>
              have straight : item.role = .content ∨ item.role = .passed ∨
                  item.role = .consumed := by simp [role]
              rw [turn_straight _ _ _ _ pending straight] at turns
              cases turns
              exact .passing outer output state pending straight
          | misplaced fault =>
              rw [turn_misplaced _ _ _ _ pending role] at turns
              cases turns
          | condition name wantsDefined =>
              rw [turn_block _ _ _ _ pending role] at turns
              split at turns
              · cases turns
              · next found =>
                  split at turns
                  · cases turns
                  · next preparation =>
                      cases turns
                      exact .opening outer output pending role found preparation

/-! The loop ends from every state. -/

/-- The work that is left in open levels: the includes that can still bring in lines, and then the
items and the levels. -/
def weight (frames : List LevelFrame) : Nat × Nat :=
  ((frames.map fun frame => includeCount frame.pending).sum,
    (frames.map fun frame => frame.pending.length + 1).sum)

theorem weight_cons (frame : LevelFrame) (outer : List LevelFrame) :
    weight (frame :: outer) =
      (includeCount frame.pending + (weight outer).1,
        frame.pending.length + 1 + (weight outer).2) := rfl

theorem weight_turns {earlier later : Traversal State}
    (turns : Loop.Turns walker.turn earlier later) :
    Prod.Lex Nat.lt Nat.lt (weight later.frames) (weight earlier.frames) := by
  cases walker.move_of_turns turns with
  | closing outer output state pending =>
      simp only [weight_cons, pending]
      apply Prod.Lex.right'
      · exact Nat.le_add_left _ _
      · exact Nat.lt_add_of_pos_left (Nat.succ_pos _)
  | @passing frame item rest outer output state pending straight =>
      have counted := include_count_cons item rest
      simp only [weight_cons, LevelFrame.pending_next pending, pending, List.length_cons]
      apply Prod.Lex.right'
      · omega
      · exact Nat.add_lt_add_right (Nat.lt_succ_self _) _
  | @opening frame item rest level name wantsDefined parts state prepared outer output pending
      role found preparation =>
      have composed := (compose_of_cut found).1
      have light := walker.prepare_noHeavier _ _ level (congrArg Prod.fst preparation)
      obtain ⟨sublist, shorter⟩ :=
        composed.branch_after (walker.isDefined state name == wantsDefined)
      have counted := include_count_cons item rest
      have fewer : includeCount (parts.branch (walker.isDefined state name == wantsDefined)) +
          includeCount parts.after ≤ includeCount rest := by
        have parted : includeCount (parts.branch (walker.isDefined state name == wantsDefined) ++
            parts.after) ≤ includeCount rest := sublist.countP_le
        rwa [includeCount, List.countP_append] at parted
      have opened : (LevelFrame.mk level 0).pending = level := rfl
      simp only [weight_cons, opened, LevelFrame.pending_behind pending composed, pending,
        List.length_cons]
      -- Lines are brought in only in place of an include, and else the branch does not grow.
      rcases Nat.eq_or_lt_of_le light.1 with same | less
      · have least := light.2 same
        apply Prod.Lex.right'
        · omega
        · change (_ : Nat) < _
          omega
      · apply Prod.Lex.left
        change (_ : Nat) < _
        omega

theorem turns_well_founded :
    WellFounded fun later earlier => Loop.Turns walker.turn earlier later := by
  have measure : WellFounded (InvImage (Prod.Lex Nat.lt Nat.lt)
      fun traversal : Traversal State => weight traversal.frames) :=
    InvImage.wf _ (Prod.lex Nat.lt_wfRel Nat.lt_wfRel).wf
  exact Subrelation.wf (fun turns => walker.weight_turns turns) measure

/-! The result of the loop is that of the walk. -/

section Leads

variable {walker}

variable (walker) in
/-- Where the loop comes with a level: to the levels around it behind the lines of the level, or
to an end with a failure. -/
def Leads (frame : LevelFrame) (outer : List LevelFrame) (output : List Line) (state : State)
    (result : Except Diagnostic (List Line) × State) : Prop :=
  match result with
  | (.ok lines, final) =>
      Loop.Reaches walker.turn ⟨frame :: outer, output, state⟩ ⟨outer, output ++ lines, final⟩
  | (.error diagnostic, final) =>
      Loop.Ends walker.turn ⟨frame :: outer, output, state⟩ (.error diagnostic, final)

theorem Leads.prepend {first second : LevelFrame} {outer : List LevelFrame}
    {output lines : List Line} {state middle : State}
    {result : Except Diagnostic (List Line) × State}
    (reaches : Loop.Reaches walker.turn ⟨first :: outer, output, state⟩
      ⟨second :: outer, output ++ lines, middle⟩)
    (leads : walker.Leads second outer (output ++ lines) middle result) :
    walker.Leads first outer output state (result.1.map (lines ++ ·), result.2) := by
  obtain ⟨outcome, final⟩ := result
  cases outcome with
  | error diagnostic => exact reaches.ends leads
  | ok later =>
      have arrives := reaches.trans leads
      rw [List.append_assoc] at arrives
      exact arrives

/-- The loop does with a level what the walk does with the items that are left of it. -/
theorem Run.leads {items : List Item} {state : State}
    {result : Except Diagnostic (List Line) × State} (run : walker.Run items state result)
    {frame : LevelFrame} (pending : frame.pending = items) (outer : List LevelFrame)
    (output : List Line) :
    walker.Leads frame outer output state result := by
  induction run generalizing frame outer output with
  | nil state =>
      have closed := (turn_closed walker outer output state pending)
      show Loop.Reaches walker.turn _ _
      rw [List.append_nil]
      exact Loop.Turns.reaches closed
  | @straight item rest state result roles later induction =>
      have passes : Loop.Turns walker.turn _ _ :=
        turn_straight walker outer output state pending roles
      exact .prepend passes.reaches (induction (LevelFrame.pending_next pending) outer _)
  | misplaced rest state role =>
      exact Loop.ends_of_turn (turn_misplaced walker outer output state pending role)
  | unclosed state role found =>
      have stops := turn_block walker outer output state pending role
      rw [found] at stops
      exact Loop.ends_of_turn stops
  | @refused item rest state after name wantsDefined parts diagnostic role found preparation =>
      have stops := turn_block walker outer output state pending role
      rw [found] at stops
      simp only [preparation] at stops
      exact Loop.ends_of_turn stops
  | @failed item rest level state prepared final name wantsDefined parts diagnostic role found
      preparation branch induction =>
      have opens := turn_block walker outer output state pending role
      rw [found] at opens
      simp only [preparation] at opens
      have opened : (LevelFrame.mk level 0).pending = level := rfl
      have inside := induction opened (frame.behind parts :: outer) output
      exact (Loop.Turns.reaches opens).ends inside
  | @block item rest level state prepared walked name wantsDefined parts inner result role found
      preparation branch behind induction later =>
      have opens := turn_block walker outer output state pending role
      rw [found] at opens
      simp only [preparation] at opens
      have opened : (LevelFrame.mk level 0).pending = level := rfl
      have inside := induction opened (frame.behind parts :: outer) output
      have left := LevelFrame.pending_behind pending (compose_of_cut found).1
      exact .prepend ((Loop.Turns.reaches opens).trans inside) (later left outer _)

end Leads

/-- The loop over a prepared level ends, and nothing else than the result of the walk is its
result. -/
theorem ends_iff (level : List Item) (state : State)
    (result : Except Diagnostic (List Line) × State) :
    Loop.Ends walker.turn (.start level state) result ↔ result = walker.walk level state := by
  have ends : Loop.Ends walker.turn (.start level state) (walker.walk level state) := by
    have started : (LevelFrame.mk level 0).pending = level := rfl
    have leads := (walker.run_walk level state).leads started [] []
    generalize walker.walk level state = outcome at leads
    obtain ⟨outcome, final⟩ := outcome
    cases outcome with
    | error diagnostic => exact leads
    | ok lines => exact Loop.Reaches.ends leads (Loop.ends_of_turn rfl)
  exact Loop.Ends.iff_eq ends result

end Walker

end FortranDeps.Preprocess

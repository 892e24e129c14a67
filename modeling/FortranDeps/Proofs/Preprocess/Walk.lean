import FortranDeps.Preprocess.Pass
import Mathlib

/-!
One equation of the walk for each role that an item can have, and the preparation of
levels without includes. Later proofs use these equations and do not open the walk, whose
recursion is justified by a measure.
-/

namespace FortranDeps.Preprocess

namespace Walker

variable {State : Type} (walker : Walker State)

@[simp]
theorem walk_nil (state : State) : walker.walk [] state = (.ok [], state) := by
  rw [walk]

theorem walk_content {item : Item} (role : item.role = .content) (rest : List Item)
    (state : State) :
    walker.walk (item :: rest) state =
      ((walker.walk rest state).1.map (walker.emit item.line state :: ·),
        (walker.walk rest state).2) := by
  rw [walk, role]

theorem walk_passed {item : Item} (role : item.role = .passed) (rest : List Item)
    (state : State) :
    walker.walk (item :: rest) state =
      ((walker.walk rest state).1.map (item.line :: ·), (walker.walk rest state).2) := by
  rw [walk, role]

theorem walk_consumed {item : Item} (role : item.role = .consumed) (rest : List Item)
    (state : State) : walker.walk (item :: rest) state = walker.walk rest state := by
  rw [walk, role]

theorem walk_misplaced {item : Item} {fault : StructureFault}
    (role : item.role = .misplaced fault) (rest : List Item) (state : State) :
    walker.walk (item :: rest) state = (.error (fault.at item.line.location), state) := by
  rw [walk, role]

/-- A closed block whose chosen branch is prepared and walked without a failure stands for
the output of that branch; the walk goes on behind the end of the block. -/
theorem walk_condition {item : Item} {name : String} {wantsDefined : Bool}
    (role : item.role = .condition name wantsDefined) {rest : List Item} {block : Block}
    (closed : Block.close 0 item.line.location rest 1 0 none = .ok block)
    {state prepared walked : State} {level : List Item} {inner : List Line}
    (preparation : walker.prepare (walker.branch state (item :: rest) block name wantsDefined)
      state = (.ok level, prepared))
    (branch : walker.walk level prepared = (.ok inner, walked)) :
    walker.walk (item :: rest) state =
      ((walker.walk (rest.drop block.ending) walked).1.map (inner ++ ·),
        (walker.walk (rest.drop block.ending) walked).2) := by
  rw [walk, role]
  simp only
  split
  · next failed => rw [closed] at failed; cases failed
  · next found same =>
      obtain rfl : block = found := Except.ok.inj (closed.symm.trans same)
      split
      · next failed => rw [preparation] at failed; cases failed
      · next outcome =>
          rw [preparation] at outcome
          cases outcome
          rw [branch]

end Walker

theorem splice_eq_self (tree : FileTree) (paths : List Path) {items : List Item}
    (plain : ∀ item ∈ items, item.isInclude = false) (depth : Nat) :
    splice tree paths items depth = (.ok items, []) := by
  induction items generalizing depth with
  | nil => rfl
  | cons item rest induction =>
      have later := induction fun other member => plain other (List.mem_cons_of_mem item member)
      have notInclude := plain item List.mem_cons_self
      rw [splice.eq_def]
      split
      · next same => cases same
      · next same =>
          cases same
          split
          · next directive => simp [Item.isInclude, directive] at notInclude
          · rw [later]
            rfl

/-- Inside of a block every item is kept, definitions too. -/
theorem apply_definitions_inside (item : Item) (rest : List Item) (depth : Nat)
    (table : MacroTable) :
    applyDefinitions (item :: rest) (depth + 1) table =
      (item :: (applyDefinitions rest (depthAfter item (depth + 1)) table).1,
        (applyDefinitions rest (depthAfter item (depth + 1)) table).2) := by
  rw [applyDefinitions]
  all_goals intros; contradiction

/-- An item that the walk does not pass over in silence is kept at every depth. -/
theorem apply_definitions_other {item : Item} (other : item.role ≠ .consumed) (rest : List Item)
    (depth : Nat) (table : MacroTable) :
    applyDefinitions (item :: rest) depth table =
      (item :: (applyDefinitions rest (depthAfter item depth) table).1,
        (applyDefinitions rest (depthAfter item depth) table).2) := by
  rw [applyDefinitions]
  · intro name value directive _
    exact other (by simp [Item.role, directive])
  · intro name directive _
    exact other (by simp [Item.role, directive])

end FortranDeps.Preprocess

import FortranDeps.Proofs.Preprocess.Evaluation

/-!
A discarded branch has no influence. What an evaluation does with a block, and with all that
follows it, depends on the branch that is selected in the state reached before the block; of
the other branch only its end is looked for.
-/

namespace FortranDeps.Preprocess

open Block

variable {State : Type}

/-- The directives of a block with an alternative. -/
structure Fence where
  name : String
  wantsDefined : Bool
  opening : Item
  middle : Item
  ending : Item
  opens : opening.role = .condition name wantsDefined
  turns : middle.directive = some .otherwise
  closes : ending.directive = some .endIf

/-- Items that can be a branch of a block. -/
structure Branch where
  items : List Item
  enclosed : Enclosed 0 items

namespace Fence

variable (fence : Fence)

def around (first second : Branch) : List Item :=
  fence.opening :: (first.items ++ fence.middle :: (second.items ++ [fence.ending]))

/-- The block in which the given result of the test selects the first of the two branches
here. -/
def selecting (holds : Bool) (chosen discarded : Branch) : List Item :=
  if holds then fence.around chosen discarded else fence.around discarded chosen

theorem cut_around (location : Location) (first second : Branch) (after : List Item) :
    cut location (first.items ++ fence.middle :: (second.items ++ fence.ending :: after)) 0 false =
      .ok ⟨first.items, some second.items, after⟩ := by
  have inFirst := cut_enclosed first.enclosed location
    (fence.middle :: (second.items ++ fence.ending :: after)) 0 false
  have inSecond := cut_enclosed second.enclosed location (fence.ending :: after) 0 true
  rw [Nat.add_zero] at inFirst inSecond
  rw [inFirst, cut_alternative _ _ fence.turns, inSecond, cut_end _ _ _ fence.closes]
  simp [Except.map, Parts.keep, Parts.turn]

theorem evaluate_around (handlers : Handlers State) (first second : Branch) (after : List Item)
    (state : State) :
    handlers.evaluate (fence.around first second ++ after) state =
      handlers.resume (if handlers.isDefined state fence.name == fence.wantsDefined
        then first.items else second.items) after state := by
  have shape : fence.around first second ++ after = fence.opening ::
      (first.items ++ fence.middle :: (second.items ++ fence.ending :: after)) := by
    simp [around]
  rw [shape, handlers.evaluate_block _ _ fence.opens, fence.cut_around]
  rfl

/-- A block is evaluated from the branch that its test selects. -/
theorem evaluate_selecting (handlers : Handlers State) (chosen discarded : Branch)
    (after : List Item) (state : State) :
    handlers.evaluate (fence.selecting (handlers.isDefined state fence.name == fence.wantsDefined)
        chosen discarded ++ after) state =
      handlers.resume chosen.items after state := by
  unfold selecting
  split
  · next holds => rw [evaluate_around, if_pos holds]
  · next fails => rw [evaluate_around, if_neg fails]

/-- Behind items that are evaluated without a failure, a block and all that follows it depend
on the branch that is selected in the state reached. -/
theorem evaluate_behind {handlers : Handlers State} {before : List Item} {state reached : State}
    {lines : List Line} {levels : List (List Item)}
    (done : handlers.evaluate before state = some ⟨.ok lines, reached, levels⟩)
    (chosen discarded : Branch) (after : List Item) :
    handlers.evaluate (before ++ fence.selecting
        (handlers.isDefined reached fence.name == fence.wantsDefined) chosen discarded ++ after)
        state =
      (handlers.resume chosen.items after reached).map (Outcome.after lines levels) := by
  rw [List.append_assoc, handlers.evaluate_append done, evaluate_selecting]

theorem walk_behind {walker : Walker State} {before : List Item} {state reached : State}
    {lines : List Line} (done : walker.walk before state = (.ok lines, reached))
    (chosen discarded other : Branch) (after : List Item) :
    walker.walk (before ++ fence.selecting
        (walker.isDefined reached fence.name == fence.wantsDefined) chosen discarded ++ after)
        state =
      walker.walk (before ++ fence.selecting
        (walker.isDefined reached fence.name == fence.wantsDefined) chosen other ++ after)
        state := by
  obtain ⟨levels, met⟩ := walker.evaluate_handlers before state
  rw [done] at met
  have first := fence.evaluate_behind met chosen discarded after
  have second := fence.evaluate_behind met chosen other after
  rw [← second] at first
  obtain ⟨_, left⟩ := walker.evaluate_handlers (before ++ fence.selecting
    (walker.isDefined reached fence.name == fence.wantsDefined) chosen discarded ++ after) state
  obtain ⟨_, right⟩ := walker.evaluate_handlers (before ++ fence.selecting
    (walker.isDefined reached fence.name == fence.wantsDefined) chosen other ++ after) state
  have same := left.symm.trans (first.trans right)
  simp only [Option.some.injEq, Outcome.mk.injEq] at same
  exact Prod.ext same.1 same.2.1

end Fence

def Branch.empty : Branch := ⟨[], .nil⟩

/-- Behind items that are evaluated without a failure, the branch that a test does not select
can be any other one: lines or failure, the state at the end and the levels that are prepared
stay the same, whatever the preparation and the output are. Nothing of the discarded branch is
prepared, so the preprocessor neither applies its definitions nor looks up its includes. -/
theorem discarded_branch_has_no_influence (fence : Fence) (before after : List Item)
    (chosen discarded : Branch) :
    (∀ {State : Type} (handlers : Handlers State) (state reached : State) (lines : List Line)
      (levels : List (List Item)),
      handlers.evaluate before state = some ⟨.ok lines, reached, levels⟩ →
      let holds := handlers.isDefined reached fence.name == fence.wantsDefined
      (∀ other : Branch,
        handlers.evaluate (before ++ fence.selecting holds chosen discarded ++ after) state =
          handlers.evaluate (before ++ fence.selecting holds chosen other ++ after) state) ∧
      ∀ own : Item → Prop, handlers.Keeps own →
        (∀ item ∈ before ++ fence.selecting holds chosen .empty ++ after, own item) →
        ∀ outcome,
          handlers.evaluate (before ++ fence.selecting holds chosen discarded ++ after) state =
            some outcome →
          ∀ level ∈ outcome.levels, ∀ item ∈ level, own item) ∧
    ∀ (tree : FileTree) (paths : List Path) (progress reached : Progress) (lines : List Line),
      (walker tree paths).walk before progress = (.ok lines, reached) →
      let holds := reached.table.isDefined fence.name == fence.wantsDefined
      ∀ other : Branch,
        (walker tree paths).walk (before ++ fence.selecting holds chosen discarded ++ after)
            progress =
          (walker tree paths).walk (before ++ fence.selecting holds chosen other ++ after)
            progress := by
  constructor
  · intro State handlers state reached lines levels done
    have free (other : Branch) := (fence.evaluate_behind done chosen discarded after).trans
      (fence.evaluate_behind done chosen other after).symm
    constructor
    · exact free
    · intro own keeps all outcome found
      rw [free .empty] at found
      exact handlers.levels_of_evaluate keeps found all
  · intro tree paths progress reached lines done holds other
    exact fence.walk_behind done chosen discarded other after

/-- A block on a name, with lines of one file. -/
def flagFence : Fence where
  name := "MPI"
  wantsDefined := true
  opening := ⟨⟨"#ifdef MPI", ⟨"a.F90", 2⟩⟩, some (.ifDefined "MPI")⟩
  middle := ⟨⟨"#else", ⟨"a.F90", 4⟩⟩, some .otherwise⟩
  ending := ⟨⟨"#endif", ⟨"a.F90", 7⟩⟩, some .endIf⟩
  opens := rfl
  turns := rfl
  closes := rfl

def flagBefore : List Item := [⟨⟨"module a", ⟨"a.F90", 1⟩⟩, none⟩]

def flagChosen : Branch := ⟨[⟨⟨"use mpi", ⟨"a.F90", 3⟩⟩, none⟩], .inert rfl .nil⟩

/-- A branch with an include that cannot be found and a definition. -/
def flagDiscarded : Branch :=
  ⟨[⟨⟨"#include 'serial.h'", ⟨"a.F90", 5⟩⟩, some (.includeFile "serial.h")⟩,
    ⟨⟨"#define SERIAL", ⟨"a.F90", 6⟩⟩, some (.define "SERIAL" none)⟩],
    .inert rfl (.inert rfl .nil)⟩

theorem missing_include_is_not_looked_up :
    let tree := FileTree.empty []
    let start : Progress := ⟨MacroTable.empty.define "MPI" none, []⟩
    (walker tree []).walk flagBefore start =
        (.ok [emitLine ⟨"module a", ⟨"a.F90", 1⟩⟩ start.table], start) ∧
      start.table.isDefined "MPI" = true ∧
      (walker tree []).walk (flagBefore ++ flagFence.around flagChosen flagDiscarded ++ []) start =
        (walker tree []).walk (flagBefore ++ flagFence.around flagChosen .empty ++ []) start := by
  intro tree start
  have done : (walker tree []).walk flagBefore start =
      (.ok [emitLine ⟨"module a", ⟨"a.F90", 1⟩⟩ start.table], start) := by
    rw [flagBefore, Walker.walk_content _ rfl, Walker.walk_nil]
    rfl
  have defined : start.table.isDefined "MPI" = true := by decide
  have same := (discarded_branch_has_no_influence flagFence flagBefore [] flagChosen
    flagDiscarded).2 tree [] start start _ done .empty
  simp only [flagFence] at same
  refine ⟨done, defined, ?_⟩
  rw [defined] at same
  exact same

end FortranDeps.Preprocess

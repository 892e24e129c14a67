import FortranDeps.Proofs.Preprocess.Frames
import FortranDeps.Proofs.Preprocess.Lookups

/-!
No definition and no include is passed over. The search for includes counts the blocks of the lines
before it, and the application of definitions those of the included lines too; what both leave
stands inside of blocks of the level for the walk as well, however the included lines open and
close blocks. The walk comes to no such item, because it takes a block as a whole or stops.
-/

namespace FortranDeps.Preprocess

open Block

/-- Whether an item has its effect in the preparation of a level. -/
def Item.isConsumed (item : Item) : Bool :=
  match item.directive with
  | some (.includeFile _) | some (.define ..) | some (.undefine _) => true
  | _ => false

theorem Item.is_consumed_iff {item : Item} : item.isConsumed = true ↔ item.role = .consumed := by
  unfold isConsumed role
  cases item.directive with
  | none => simp
  | some directive => cases directive <;> simp

/-- A definition outside of blocks is dropped. -/
theorem Item.inside_of_kept {item : Item} {depth : Nat} (consumed : item.isConsumed = true)
    (plain : item.isInclude = false)
    (kept : ∀ rest table, applyDefinitions (item :: rest) depth table =
      (item :: (applyDefinitions rest (depthAfter item depth) table).1,
        (applyDefinitions rest (depthAfter item depth) table).2)) : 0 < depth := by
  rcases Nat.eq_zero_or_pos depth with rfl | inside
  · have alone := congrArg Prod.fst (kept [] .empty)
    unfold isConsumed at consumed
    unfold isInclude at plain
    cases directive : item.directive with
    | none => simp [directive] at consumed
    | some found => cases found <;> simp_all [applyDefinitions]
  · exact inside

theorem covered_of_applied {items : List Item} {depth : Nat}
    (covered : Covered Item.isInclude items depth) (table : MacroTable) :
    Covered Item.isConsumed (applyDefinitions items depth table).1 depth := by
  induction items generalizing depth table with
  | nil => trivial
  | cons item rest induction =>
      have later := covered.2
      rcases apply_definitions_cons item depth with ⟨update, same, applied⟩ | kept
      · rw [same] at later
        rw [applied]
        exact induction later _
      · rw [kept]
        refine ⟨?_, induction later table⟩
        intro consumed
        cases plain : item.isInclude with
        | true => exact covered.1 plain
        | false => exact Item.inside_of_kept consumed plain kept

/-- In a prepared level includes and definitions stand inside of blocks. -/
theorem covered_of_prepared {tree : FileTree} {paths : List Path} {items level : List Item}
    {progress after : Progress}
    (done : prepareLevel tree paths items progress = (.ok level, after)) :
    Covered Item.isConsumed level 0 := by
  unfold prepareLevel at done
  split at done
  · cases done
  · next spliced loaded found =>
      cases done
      apply covered_of_applied
      exact covered_splice (congrArg Prod.fst found) (Nat.le_refl 0)

/-! What holds in all open levels. -/

/-- In every open level includes and definitions stand inside of blocks that are still to come. -/
def Covering (frames : List LevelFrame) : Prop :=
  ∀ frame ∈ frames, Covered Item.isConsumed frame.pending 0

theorem covering_cons {frame : LevelFrame} {outer : List LevelFrame} :
    Covering (frame :: outer) ↔ Covered Item.isConsumed frame.pending 0 ∧ Covering outer :=
  List.forall_mem_cons

/-- The item that the next turn of the loop looks at. -/
def Traversal.current? {State : Type} (traversal : Traversal State) : Option Item :=
  traversal.frames.head?.bind fun frame => frame.items[frame.cursor]?

section Covering

variable {tree : FileTree} {paths : List Path} {earlier later : Traversal Progress}

theorem covering_of_turns (turns : Loop.Turns (walker tree paths).turn earlier later)
    (covering : Covering earlier.frames) : Covering later.frames := by
  cases Walker.move_of_turns _ turns with
  | closing outer output state pending => exact (covering_cons.mp covering).2
  | passing outer output state pending straight =>
      obtain ⟨own, others⟩ := covering_cons.mp covering
      apply covering_cons.mpr
      rw [pending] at own
      have rest := own.2
      rw [depth_after_straight _ straight] at rest
      rw [LevelFrame.pending_next pending]
      exact ⟨rest, others⟩
  | opening outer output pending role found preparation =>
      obtain ⟨own, others⟩ := covering_cons.mp covering
      apply covering_cons.mpr
      refine ⟨covered_of_prepared preparation, covering_cons.mpr ⟨?_, others⟩⟩
      rw [pending] at own
      have inside := own.2
      rw [depth_after_opening _ (Item.opens_block_of_condition role)] at inside
      rw [LevelFrame.pending_behind pending (compose_of_cut found).1]
      exact inside.after (shaped_of_cut found)

theorem covering_of_reaches (reaches : Loop.Reaches (walker tree paths).turn earlier later)
    (covering : Covering earlier.frames) : Covering later.frames :=
  reaches.keeps (fun _ _ known turns => covering_of_turns turns known) covering

theorem current_not_consumed (covering : Covering earlier.frames) {item : Item}
    (current : earlier.current? = some item) : item.role ≠ .consumed := by
  intro role
  obtain ⟨frame, first, there⟩ := Option.bind_eq_some_iff.mp current
  have own := covering frame (List.mem_of_head? first)
  obtain ⟨rest, pending⟩ : ∃ rest, frame.pending = item :: rest := by
    obtain ⟨bound, rfl⟩ := List.getElem?_eq_some_iff.mp there
    exact ⟨_, List.drop_eq_getElem_cons bound⟩
  rw [pending] at own
  exact Nat.lt_irrefl 0 (own.1 (Item.is_consumed_iff.mpr role))

end Covering

/-! The positions of a level that the loop comes to. -/

namespace Walker

variable {State : Type} (walker : Walker State) (level : List Item) (state : State)

/-- The loop over a level comes to the item at a position, or to the end behind the last one. -/
def Visits (position : Nat) : Prop :=
  ∃ output reached,
    Loop.Reaches walker.turn (.start level state) ⟨[⟨level, position⟩], output, reached⟩

/-- The loop over a level finds a block at a position that it comes to, and goes on behind it. -/
structure Skips (opening : Nat) (block : Block) : Prop where
  visits : walker.Visits level state opening
  found : Block.find? level opening = some (.ok block)
  closes : (level[block.ending]?).bind Item.directive = some .endIf
  continues : walker.Visits level state (block.ending + 1)

def Fails : Prop := ∃ diagnostic final, walker.walk level state = (.error diagnostic, final)

variable {walker level state}

theorem fails_of_ends {position : Nat} {output : List Line} {reached final : State}
    {diagnostic : Diagnostic}
    (reaches : Loop.Reaches walker.turn (.start level state) ⟨[⟨level, position⟩], output, reached⟩)
    (ends :
      Loop.Ends walker.turn ⟨[⟨level, position⟩], output, reached⟩ (.error diagnostic, final)) :
    walker.Fails level state :=
  ⟨diagnostic, final, ((walker.ends_iff level state _).mp (reaches.ends ends)).symm⟩

theorem directive_ending {opening : Nat} {item : Item} {rest : List Item} {parts : Parts}
    (split : level.drop opening = item :: rest)
    (found : cut item.line.location rest 0 false = .ok parts) :
    (level[(parts.place opening none (opening + 1)).ending]?).bind Item.directive =
      some .endIf := by
  rw [ending_place, ← List.getElem?_drop, split]
  cases shaped_of_cut found with
  | @single first after ending _ closes =>
      have place : ((Parts.mk first none after).place 0 none 1).ending = first.length + 1 := by
        simp [Parts.place, Nat.add_comm]
      rw [place, List.getElem?_cons_succ]
      simp [closes]
  | @double first second after middle ending _ _ _ closes =>
      have place : ((Parts.mk first (some second) after).place 0 none 1).ending =
          (first ++ middle :: second).length + 1 := by
        simp [Parts.place]
        omega
      have shape : first ++ middle :: (second ++ ending :: after) =
          (first ++ middle :: second) ++ ending :: after := by simp
      rw [place, List.getElem?_cons_succ, shape, List.getElem?_append_right (Nat.le_refl _)]
      simp [closes]

/-- From a position the loop comes to the next one, or goes on behind a block that is opened
there, or the walk fails. -/
theorem Visits.next {position : Nat} (visits : walker.Visits level state position)
    (bound : position < level.length) :
    walker.Visits level state (position + 1) ∨
      (∃ block, walker.Skips level state position block) ∨ walker.Fails level state := by
  have visited := visits
  obtain ⟨output, reached, reaches⟩ := visits
  have pending := List.drop_eq_getElem_cons bound
  generalize level[position] = item at pending
  generalize level.drop (position + 1) = rest at pending
  have frame : (LevelFrame.mk level position).pending = item :: rest := pending
  cases role : item.role with
  | content | passed | consumed =>
      have straight : item.role = .content ∨ item.role = .passed ∨ item.role = .consumed := by
        simp [role]
      have passes : Loop.Turns walker.turn _ _ :=
        turn_straight walker [] output reached frame straight
      exact .inl ⟨_, _, reaches.trans passes.reaches⟩
  | misplaced fault =>
      have stops := turn_misplaced walker [] output reached frame role
      exact .inr (.inr (fails_of_ends reaches (Loop.ends_of_turn stops)))
  | condition name wantsDefined =>
      have turn := turn_block walker [] output reached frame role
      cases found : cut item.line.location rest 0 false with
      | error diagnostic =>
          rw [found] at turn
          exact .inr (.inr (fails_of_ends reaches (Loop.ends_of_turn turn)))
      | ok parts =>
          rw [found] at turn
          dsimp only at turn
          split at turn
          · exact .inr (.inr (fails_of_ends reaches (Loop.ends_of_turn turn)))
          · next branch prepared preparation =>
              have opened : (LevelFrame.mk branch 0).pending = branch := rfl
              have leads := (walker.run_walk branch prepared).leads opened
                [LevelFrame.behind ⟨level, position⟩ parts] output
              have enters := reaches.trans (Loop.Turns.reaches turn)
              generalize walker.walk branch prepared = outcome at leads
              obtain ⟨outcome, walked⟩ := outcome
              cases outcome with
              | error diagnostic =>
                  right
                  right
                  exact ⟨diagnostic, walked,
                    ((walker.ends_iff level state _).mp (Loop.Reaches.ends enters leads)).symm⟩
              | ok lines =>
                  right
                  left
                  refine ⟨parts.place position none (position + 1), visited, ?_,
                    directive_ending pending found, ?_⟩
                  · unfold Block.find?
                    rw [pending]
                    simp only [close_eq_cut, Option.isSome_none, found, Except.map]
                  · exact ⟨_, _, enters.trans leads⟩

/-- Every position of a level is come to, or it lies in a block that is taken as a whole, or the
walk fails. -/
theorem visits_or_skips (walker : Walker State) (level : List Item) (state : State)
    {position : Nat} (bound : position < level.length) :
    walker.Visits level state position ∨
      (∃ opening block, opening < position ∧ position ≤ block.ending ∧
        walker.Skips level state opening block) ∨
      walker.Fails level state := by
  induction position with
  | zero => exact .inl ⟨[], state, Relation.ReflTransGen.refl⟩
  | succ position induction =>
      rcases induction (Nat.lt_of_succ_lt bound) with
        visits | ⟨opening, block, before, inside, skips⟩ | fails
      · rcases visits.next (Nat.lt_of_succ_lt bound) with next | ⟨block, skips⟩ | fails
        · exact .inl next
        · have behind : position < block.ending := by
            have found := skips.found
            unfold Block.find? at found
            split at found
            · cases found
            · exact le_ending_of_close (Option.some.inj found)
          exact .inr (.inl ⟨position, block, Nat.lt_succ_self _, behind, skips⟩)
        · exact .inr (.inr fails)
      · rcases Nat.eq_or_lt_of_le inside with last | more
        · rw [last]
          exact .inl skips.continues
        · exact .inr (.inl ⟨opening, block, Nat.lt_succ_of_lt before, more, skips⟩)
      · exact .inr (.inr fails)

end Walker

/-- A run of the preprocessor never looks at an include or a definition that would have no effect:
such an item is not the current one of the loop in any state that a run comes to. In every prepared
level, an include or a definition that is left stands inside of a block that the loop takes as a
whole, or the walk of the level fails before the item is reached. -/
theorem no_definition_or_include_is_passed_over (tree : FileTree) (paths : List Path) :
    (∀ (lines : List Line) (seeds : MacroTable) (items level : List Item) (progress : Progress),
      Item.ofLines lines = .ok items →
      prepareLevel tree paths items ⟨seeds, []⟩ = (.ok level, progress) →
      Loop.Ends (walker tree paths).turn (.start level progress)
        (preprocess tree paths lines seeds) ∧
      ∀ reached, Loop.Reaches (walker tree paths).turn (.start level progress) reached →
        ∀ item, reached.current? = some item → item.role ≠ .consumed) ∧
    ∀ (items level : List Item) (progress after : Progress),
      prepareLevel tree paths items progress = (.ok level, after) →
      ∀ (position : Nat) (item : Item), level[position]? = some item → item.role = .consumed →
        (∃ opening block, (walker tree paths).Skips level after opening block ∧
          opening < position ∧ position < block.ending) ∨
        ((walker tree paths).Fails level after ∧
          ¬ (walker tree paths).Visits level after position) := by
  have untouched {items level : List Item} {progress after : Progress}
      (prepared : prepareLevel tree paths items progress = (.ok level, after))
      (reached : Traversal Progress)
      (reaches : Loop.Reaches (walker tree paths).turn (.start level after) reached) (item : Item)
      (current : reached.current? = some item) : item.role ≠ .consumed := by
    have start : Covering (Traversal.start level after).frames :=
      covering_cons.mpr ⟨covered_of_prepared prepared, by simp [Covering]⟩
    exact current_not_consumed (covering_of_reaches reaches start) current
  constructor
  · intro lines seeds items level progress read prepared
    refine ⟨?_, untouched prepared⟩
    apply ((walker tree paths).ends_iff _ _ _).mpr
    unfold preprocess
    rw [read]
    simp only [prepared]
  · intro items level progress after prepared position item there role
    have missed : ¬ (walker tree paths).Visits level after position := by
      rintro ⟨output, reached, reaches⟩
      exact untouched prepared _ reaches item there role
    obtain ⟨bound, -⟩ := List.getElem?_eq_some_iff.mp there
    rcases (walker tree paths).visits_or_skips level after bound with
      visits | ⟨opening, block, before, inside, skips⟩ | fails
    · exact absurd visits missed
    · left
      refine ⟨opening, block, skips, before, ?_⟩
      apply Nat.lt_of_le_of_ne inside
      rintro rfl
      have closes := skips.closes
      rw [there] at closes
      have ending : item.directive = some .endIf := closes
      simp [Item.role, ending] at role
    · exact .inr ⟨fails, missed⟩

/-- A header that opens a block for the source that includes it. -/
def openingTree : FileTree :=
  { FileTree.empty [] with nodes := [(["o.h"], .file "#ifdef X\n".toUTF8)] }

def headerInclusion : Item := ⟨⟨"#include 'o.h'", ⟨"a.F90", 1⟩⟩, some (.includeFile "o.h")⟩

def openedLines : List Item :=
  [⟨⟨"#define Y", ⟨"a.F90", 2⟩⟩, some (.define "Y" none)⟩,
    ⟨⟨"#endif", ⟨"a.F90", 3⟩⟩, some .endIf⟩]

/-- What the header gives. -/
def headerItem : Item := ⟨⟨"#ifdef X", ⟨"o.h", 1⟩⟩, some (.ifDefined "X")⟩

theorem header_included :
    includedItems openingTree [] "o.h" ⟨"a.F90", 1⟩ = .ok [headerItem] := by
  have resolved : resolveInclude openingTree [] "o.h" ⟨"a.F90"⟩ = some ⟨"o.h"⟩ := by cbv
  have read : openingTree.readLines ⟨"o.h"⟩ = .ok [headerItem.line] := by cbv
  have classified : Item.ofLines [headerItem.line] = .ok [headerItem] := by cbv
  exact included_of_resolved resolved read classified (by decide)

/-- The definition stays in the level, and the loop passes it with the block that the header
opens. -/
theorem definition_behind_a_header_is_skipped :
    prepareLevel openingTree [] (headerInclusion :: openedLines) ⟨.empty, []⟩ =
      (.ok (headerItem :: openedLines), ⟨.empty, [⟨"a.F90", 1⟩]⟩) ∧
    ∃ opening block, opening < 1 ∧ 1 < block.ending ∧
      (walker openingTree []).Skips (headerItem :: openedLines) ⟨.empty, [⟨"a.F90", 1⟩]⟩ opening
        block := by
  have spliced : splice openingTree [] (headerInclusion :: openedLines) 0 =
      (.ok (headerItem :: openedLines), [⟨"a.F90", 1⟩]) := by
    have directive : headerInclusion.directive = some (.includeFile "o.h") := rfl
    have location : headerInclusion.line.location = ⟨"a.F90", 1⟩ := rfl
    rw [splice_include _ _ directive, location, header_included]
    rfl
  have prepared : prepareLevel openingTree [] (headerInclusion :: openedLines) ⟨.empty, []⟩ =
      (.ok (headerItem :: openedLines), ⟨.empty, [⟨"a.F90", 1⟩]⟩) := by
    unfold prepareLevel
    rw [spliced]
    rfl
  refine ⟨prepared, ?_⟩
  have outcome := (no_definition_or_include_is_passed_over openingTree []).2 _ _ _ _ prepared 1 _
    rfl rfl
  rcases outcome with ⟨opening, block, skips, before, inside⟩ | ⟨⟨diagnostic, final, fails⟩, -⟩
  · exact ⟨opening, block, before, inside, skips⟩
  · have found : cut headerItem.line.location openedLines 0 false =
        .ok ⟨[⟨⟨"#define Y", ⟨"a.F90", 2⟩⟩, some (.define "Y" none)⟩], none, []⟩ := rfl
    rw [(Walker.Run.block rfl found rfl (.nil _) (.nil _)).walk_eq] at fails
    cases fails

end FortranDeps.Preprocess

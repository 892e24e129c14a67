import FortranDeps.Proofs.Preprocess.Survey

/-!
Which sources without includes are accepted. The walk looks into the branches that are selected
only, and a search for the end of a block counts the alternatives of that block and not of those
inside of it. So the walk accepts what the survey does not refuse, which is what the machine
accepts and, beyond that, blocks with several alternatives in discarded branches.
-/

namespace FortranDeps.Preprocess

open Block

/-! Fronts of branches. -/

section Fronts

variable {item : Item} (rest : List Item)

theorem branch_items_kept {depth : Nat}
    (other : 0 < depth ∨ item.directive ≠ some .otherwise ∧ item.directive ≠ some .endIf) :
    branchItems (item :: rest) depth = item :: branchItems rest (depthAfter item depth) := by
  rw [branchItems]
  · rintro turns rfl
    simp [turns] at other
  · rintro closes rfl
    simp [closes] at other

theorem branch_items_closed
    (closing : item.directive = some .otherwise ∨ item.directive = some .endIf) :
    branchItems (item :: rest) 0 = [] := by
  rcases closing with turns | closes
  · simp only [branchItems, turns]
  · simp only [branchItems, closes]

end Fronts

/-- Enclosed items belong to the branch that they start in. -/
theorem branch_items_enclosed {items : List Item} {depth : Nat} (enclosed : Enclosed depth items)
    (tail : List Item) : branchItems (items ++ tail) depth = items ++ branchItems tail 0 := by
  induction enclosed with
  | nil => rfl
  | inert inert _ induction =>
      rw [List.cons_append, branch_items_kept, depth_after_inert _ inert, induction]
      · rfl
      · right
        constructor
        · intro turns
          simp [Item.isInert, turns] at inert
        · intro closes
          simp [Item.isInert, closes] at inert
  | opening opens _ induction =>
      rw [List.cons_append, branch_items_kept, depth_after_opening _ opens, induction]
      · rfl
      · right
        constructor
        · intro turns
          simp [Item.opensBlock, turns, Directive.opensBlock] at opens
        · intro closes
          simp [Item.opensBlock, closes, Directive.opensBlock] at opens
  | alternative turns _ induction =>
      rw [List.cons_append, branch_items_kept _ (.inl (Nat.succ_pos _)),
        depth_after_alternative _ turns, induction]
      rfl
  | ending closes _ induction =>
      rw [List.cons_append, branch_items_kept _ (.inl (Nat.succ_pos _)), depth_after_end _ closes,
        Nat.succ_sub_one, induction]
      rfl

/-- The definitions that a level drops stand in none of its blocks. -/
theorem branch_items_apply_definitions (items tail : List Item) (outer depth : Nat)
    (table : MacroTable) :
    branchItems ((applyDefinitions items (outer + depth + 1) table).1 ++ tail) depth =
      branchItems (items ++ tail) depth := by
  induction items generalizing depth with
  | nil => rfl
  | cons item rest induction =>
      rw [apply_definitions_inside, List.cons_append, List.cons_append]
      by_cases closing : depth = 0 ∧
          (item.directive = some .otherwise ∨ item.directive = some .endIf)
      · obtain ⟨rfl, closing⟩ := closing
        rw [branch_items_closed _ closing, branch_items_closed _ closing]
      · have other : 0 < depth ∨
            item.directive ≠ some .otherwise ∧ item.directive ≠ some .endIf := by
          rcases Nat.eq_zero_or_pos depth with rfl | positive
          · exact .inr (not_or.mp fun either => closing ⟨rfl, either⟩)
          · exact .inl positive
        have shifted : depthAfter item (outer + depth + 1) = outer + depthAfter item depth + 1 := by
          rcases item.kind_cases with inert | opens | turns | closes | ⟨keyword, unsupported⟩
          · simp only [depth_after_inert _ inert]
          · simp only [depth_after_opening _ opens]
            omega
          · simp only [depth_after_alternative _ turns]
          · simp only [depth_after_end _ closes]
            simp only [closes, ne_eq, not_true, and_false, or_false] at other
            omega
          · simp [depthAfter, Item.opensBlock, Item.closesBlock, unsupported,
              Directive.opensBlock, Directive.closesBlock]
        rw [branch_items_kept _ other, branch_items_kept _ other, shifted, induction]

theorem enter_apply_definitions (frame : Frame) (items tail : List Item) (depth : Nat)
    (before table : MacroTable) :
    frame.enter ((applyDefinitions items (depth + 1) before).1 ++ tail) table =
      frame.enter (items ++ tail) table := by
  have front := branch_items_apply_definitions items tail depth 0 before
  unfold Frame.enter branchTable
  rw [← Nat.add_zero depth, front]

/-- The survey does not ask for definitions outside of the blocks of a level. -/
theorem survey_apply_definitions {items : List Item} {depth : Nat} (enclosed : Enclosed depth items)
    (before : MacroTable) (tail : List Item) (frames : List Frame) (table : MacroTable) :
    survey ((applyDefinitions items depth before).1 ++ tail) frames table =
      survey (items ++ tail) frames table := by
  induction enclosed generalizing before frames table with
  | nil => rfl
  | @inert depth item rest inert _ induction =>
      rw [List.cons_append, survey_inert _ _ _ inert]
      rcases apply_definitions_cons item depth with ⟨update, -, applied⟩ | kept
      · rw [applied, induction]
      · rw [kept, List.cons_append, survey_inert _ _ _ inert, depth_after_inert _ inert, induction]
  | @opening depth item rest opens _ induction =>
      obtain ⟨name, wantsDefined, role⟩ := Item.condition_of_opens_block opens
      rw [apply_definitions_other (by simp [role]), depth_after_opening _ opens, List.cons_append,
        List.cons_append, survey_opening _ _ _ role, survey_opening _ _ _ role,
        enter_apply_definitions, induction]
  | @alternative depth item rest turns _ induction =>
      rw [apply_definitions_inside, depth_after_alternative _ turns, List.cons_append,
        List.cons_append]
      cases frames with
      | nil => rw [survey_stray _ _ (.inl turns), survey_stray _ _ (.inl turns)]
      | cons frame outer =>
          rw [survey_alternative _ _ _ turns, survey_alternative _ _ _ turns,
            enter_apply_definitions, induction, induction]
  | @ending depth item rest closes _ induction =>
      rw [apply_definitions_inside, depth_after_end _ closes, Nat.add_sub_cancel, List.cons_append,
        List.cons_append]
      cases frames with
      | nil => rw [survey_stray _ _ (.inr closes), survey_stray _ _ (.inr closes)]
      | cons frame outer =>
          rw [survey_end _ _ _ closes, survey_end _ _ _ closes, induction]

/-! Sections of a block. -/

theorem reached_append {inner frames : List Frame} (dead : ∀ frame ∈ inner, frame.live = false)
    (discarded : reached frames = false) : reached (inner ++ frames) = false := by
  cases inner with
  | nil => exact discarded
  | cons frame inner => simp [reached, Frame.chosen, dead frame List.mem_cons_self]

/-- A section that is discarded is passed over. -/
theorem survey_discarded {items : List Item} {depth : Nat} (enclosed : Enclosed depth items)
    (inner : List Frame) (count : inner.length = depth)
    (dead : ∀ frame ∈ inner, frame.live = false) {frames : List Frame}
    (discarded : reached frames = false) (tail : List Item) (table : MacroTable) :
    (survey (items ++ tail) (inner ++ frames) table).isSome =
      (survey tail frames table).isSome := by
  induction enclosed generalizing inner with
  | nil =>
      obtain rfl := List.length_eq_zero_iff.mp count
      rfl
  | inert inert _ induction =>
      rw [List.cons_append, survey_inert _ _ _ inert]
      exact induction inner count dead
  | @opening depth item rest opens _ induction =>
      obtain ⟨name, wantsDefined, role⟩ := Item.condition_of_opens_block opens
      rw [List.cons_append, survey_opening _ _ _ role, reached_append dead discarded]
      apply induction (_ :: inner) (congrArg (· + 1) count)
      exact List.forall_mem_cons.mpr ⟨rfl, dead⟩
  | alternative turns _ induction =>
      obtain ⟨frame, outer, rfl⟩ := List.exists_cons_of_length_eq_add_one count
      obtain ⟨idle, others⟩ := List.forall_mem_cons.mp dead
      rw [List.cons_append, List.cons_append, survey_alternative _ _ _ turns, idle]
      cases met : frame.turned with
      | true =>
          simp only [if_true, Bool.false_eq_true, if_false, Option.isSome_map]
          exact induction (frame :: outer) count dead
      | false =>
          have asleep : frame.turn.chosen = false := by
            simp [Frame.chosen, Frame.turn, idle]
          simp only [Bool.false_eq_true, if_false, Frame.enter, asleep]
          exact induction (frame.turn :: outer) count
            (List.forall_mem_cons.mpr ⟨idle, others⟩)
  | ending closes _ induction =>
      obtain ⟨frame, outer, rfl⟩ := List.exists_cons_of_length_eq_add_one count
      rw [List.cons_append, List.cons_append, survey_end _ _ _ closes]
      exact induction outer (Nat.succ.inj count) (List.forall_mem_cons.mp dead).2

theorem branch_table_enclosed {branch : List Item} (enclosed : Enclosed 0 branch)
    {closing : List Item} (closes : branchItems closing 0 = []) (table : MacroTable) :
    branchTable (branch ++ closing) table = (applyDefinitions branch 0 table).2 := by
  unfold branchTable
  rw [branch_items_enclosed enclosed, closes, List.append_nil]

/-- Where a search for the end of a reached block fails, the survey stops. -/
theorem survey_of_cut_error {location : Location} {items : List Item} {depth outer : Nat}
    {turned : Bool} {diagnostic : Diagnostic}
    (failed : cut location items depth turned = .error diagnostic)
    (enclosed : Enclosed (outer + depth + 1) items) (inner : List Frame)
    (count : inner.length = depth) (frame : Frame) (live : frame.live = true)
    (met : frame.turned = turned) (frames : List Frame) (tail : List Item) (table : MacroTable) :
    survey (items ++ tail) (inner ++ frame :: frames) table = none := by
  fun_induction cut location items depth turned generalizing inner frame table with
  | case1 => cases enclosed
  | case4 => cases failed
  | case9 item rest depth turned keyword unsupported =>
      exact survey_unsupported _ _ _ unsupported
  | case6 item rest turns =>
      obtain rfl := List.length_eq_zero_iff.mp count
      rw [List.cons_append, List.nil_append, survey_alternative _ _ _ turns, met, live]
      rfl
  | case7 item rest turned turns unmet induction =>
      have later := enclosed.tail
      rw [depth_after_alternative _ turns] at later
      obtain rfl := List.length_eq_zero_iff.mp count
      rw [List.cons_append, List.nil_append, survey_alternative _ _ _ turns, met, if_neg unmet]
      exact induction (map_eq_error.mp failed) later [] count frame.turn live rfl _
  | case2 item rest depth turned name directive induction
  | case3 item rest depth turned name directive induction =>
      have opens : item.opensBlock = true := by
        simp [Item.opensBlock, directive, Directive.opensBlock]
      obtain ⟨name, wantsDefined, role⟩ := Item.condition_of_opens_block opens
      have later := enclosed.tail
      rw [depth_after_opening _ opens] at later
      rw [List.cons_append, survey_opening _ _ _ role]
      exact induction (map_eq_error.mp failed) later (_ :: inner) (congrArg (· + 1) count) frame
        live met _
  | case5 item rest turned closes depth induction =>
      have later := enclosed.tail
      rw [depth_after_end _ closes] at later
      obtain ⟨block, others, rfl⟩ := List.exists_cons_of_length_eq_add_one count
      rw [List.cons_append, List.cons_append, survey_end _ _ _ closes]
      exact induction (map_eq_error.mp failed) later others (Nat.succ.inj count) frame live met _
  | case8 item rest turned turns depth induction =>
      have later := enclosed.tail
      rw [depth_after_alternative _ turns] at later
      obtain ⟨block, others, rfl⟩ := List.exists_cons_of_length_eq_add_one count
      rw [List.cons_append, List.cons_append, survey_alternative _ _ _ turns]
      have same := induction (map_eq_error.mp failed) later (block :: others) count frame live met
        table
      have turned := induction (map_eq_error.mp failed) later (block.turn :: others) count frame
        live met (block.turn.enter (rest ++ tail) table)
      rw [List.cons_append] at same turned
      rw [same, turned]
      split
      · split <;> rfl
      · rfl
  | case10 item rest depth turned defined undefined ends turns unsupported induction =>
      have inert := Item.inert_of_other defined undefined ends turns unsupported
      have later := enclosed.tail
      rw [depth_after_inert _ inert] at later
      rw [List.cons_append, survey_inert _ _ _ inert]
      exact induction (map_eq_error.mp failed) later inner count frame live met _

theorem survey_discarded_branch {frame : Frame} (other : frame.chosen = false)
    {branch : List Item} (inside : Enclosed 0 branch) (closing : List Item) (frames : List Frame)
    (table : MacroTable) :
    (survey (branch ++ closing) (frame :: frames) (frame.enter (branch ++ closing) table)).isSome =
      (survey closing (frame :: frames) table).isSome := by
  have same : frame.enter (branch ++ closing) table = table := if_neg (by simp [other])
  have unreached : reached (frame :: frames) = false := other
  rw [same]
  exact survey_discarded inside [] rfl (by simp) unreached closing table

theorem enter_selected {frame : Frame} (chosen : frame.chosen = true) {branch : List Item}
    (inside : Enclosed 0 branch) {item : Item}
    (closing : item.directive = some .otherwise ∨ item.directive = some .endIf) (rest : List Item)
    (table : MacroTable) :
    frame.enter (branch ++ item :: rest) table = (applyDefinitions branch 0 table).2 := by
  rw [Frame.enter, if_pos chosen, branch_table_enclosed inside (branch_items_closed rest closing)]

theorem survey_turn {item : Item} (turns : item.directive = some .otherwise) (rest : List Item)
    (live holds : Bool) (frames : List Frame) (table : MacroTable) :
    survey (item :: rest) (⟨live, holds, false⟩ :: frames) table =
      survey rest (⟨live, holds, true⟩ :: frames) (Frame.enter ⟨live, holds, true⟩ rest table) :=
  survey_alternative _ _ _ turns _

/-- A block that is reached is surveyed as its selected branch, and then as what follows it: the
other branch is passed over. -/
theorem survey_block {item : Item} {name : String} {wantsDefined : Bool}
    (role : item.role = .condition name wantsDefined) {rest : List Item} {parts : Parts}
    (found : cut item.line.location rest 0 false = .ok parts) {frames : List Frame}
    (live : reached frames = true) (tail : List Item) (table : MacroTable) :
    let branch := parts.branch (table.isDefined name == wantsDefined)
    Enclosed 0 branch ∧ ∃ frame closing, frame.chosen = true ∧
      (survey (item :: rest ++ tail) frames table).isSome =
        (survey (branch ++ closing) (frame :: frames) (applyDefinitions branch 0 table).2).isSome ∧
      ∀ table, (survey closing (frame :: frames) table).isSome =
        (survey (parts.after ++ tail) frames table).isSome := by
  rw [List.cons_append, survey_opening _ _ _ role, live]
  cases holds : table.isDefined name == wantsDefined with
  | true =>
      cases shaped_of_cut found with
      | @single first after ending inFirst closes =>
          refine ⟨inFirst, ⟨true, true, false⟩, ending :: (after ++ tail), rfl, ?_, ?_⟩
          · rw [List.append_assoc, List.cons_append, enter_selected rfl inFirst (.inr closes)]
            rfl
          · intro table
            rw [survey_end _ _ _ closes]
      | @double first second after middle ending inFirst turns inSecond closes =>
          refine ⟨inFirst, ⟨true, true, false⟩, middle :: (second ++ ending :: (after ++ tail)),
            rfl, ?_, ?_⟩
          · rw [List.append_assoc, List.cons_append, List.append_assoc, List.cons_append,
              enter_selected rfl inFirst (.inl turns)]
            rfl
          · intro table
            rw [survey_turn turns, survey_discarded_branch rfl inSecond, survey_end _ _ _ closes]
  | false =>
      cases shaped_of_cut found with
      | @single first after ending inFirst closes =>
          -- The second branch is empty, and stands directly before the end.
          refine ⟨.nil, ⟨true, true, false⟩, ending :: (after ++ tail), rfl, ?_, ?_⟩
          · rw [List.append_assoc, List.cons_append, survey_discarded_branch rfl inFirst,
              survey_end _ _ _ closes]
            exact congrArg Option.isSome (survey_end _ _ _ closes _).symm
          · intro table
            rw [survey_end _ _ _ closes]
      | @double first second after middle ending inFirst turns inSecond closes =>
          refine ⟨inSecond, ⟨true, false, true⟩, ending :: (after ++ tail), rfl, ?_, ?_⟩
          · rw [List.append_assoc, List.cons_append, List.append_assoc, List.cons_append,
              survey_discarded_branch rfl inFirst, survey_turn turns,
              enter_selected rfl inSecond (.inr closes)]
            rfl
          · intro table
            rw [survey_end _ _ _ closes]

/-! The walk and the survey. -/

/-- A walk is followed by the survey: where the walk ends, the survey goes on from the same table,
and where the walk fails, the survey stops. -/
def Follows (items : List Item) (table : MacroTable)
    (run : Except Diagnostic (List Line) × Progress) : Prop :=
  ∀ frames, reached frames = true → ∀ tail, (survey (items ++ tail) frames table).isSome =
    (run.1.toOption.isSome && (survey tail frames run.2.table).isSome)

namespace Follows

variable {items : List Item} {table : MacroTable} {run : Except Diagnostic (List Line) × Progress}

theorem map (follows : Follows items table run) (f : List Line → List Line) :
    Follows items table (run.1.map f, run.2) := by
  intro frames live tail
  rw [follows frames live tail]
  cases run.1 <;> rfl

theorem straight {item : Item} (follows : Follows items table run) (inert : item.isInert = true) :
    Follows (item :: items) table run := by
  intro frames live tail
  rw [List.cons_append, survey_inert _ _ _ inert]
  exact follows frames live tail

end Follows

theorem prepare_level_branch (tree : FileTree) (paths : List Path) {location : Location}
    {rest : List Item} {parts : Parts} (found : cut location rest 0 false = .ok parts)
    (plain : ∀ item ∈ rest, item.isInclude = false) (holds : Bool) (progress : Progress) :
    prepareLevel tree paths (parts.branch holds) progress =
      (.ok (applyDefinitions (parts.branch holds) 0 progress.table).1,
        ⟨(applyDefinitions (parts.branch holds) 0 progress.table).2, progress.loaded⟩) := by
  apply prepare_level_plain
  intro item member
  exact plain item ((compose_of_cut found).1.mem_of_branch member)

/-- The branch that is prepared in the walk is the one that the survey enters. -/
theorem survey_level {tree : FileTree} {paths : List Path} {item : Item} {rest level : List Item}
    {progress prepared : Progress} {name : String} {wantsDefined : Bool} {parts : Parts}
    (role : item.role = .condition name wantsDefined)
    (found : cut item.line.location rest 0 false = .ok parts)
    (preparation : prepareLevel tree paths
      (parts.branch (progress.table.isDefined name == wantsDefined)) progress =
        (.ok level, prepared))
    (plain : ∀ item ∈ rest, item.isInclude = false) {frames : List Frame}
    (live : reached frames = true) (tail : List Item) :
    Enclosed 0 level ∧ (∀ item ∈ level, item.isInclude = false) ∧
      ∃ frame closing, frame.chosen = true ∧
        (survey (item :: rest ++ tail) frames progress.table).isSome =
          (survey (level ++ closing) (frame :: frames) prepared.table).isSome ∧
        ∀ table, (survey closing (frame :: frames) table).isSome =
          (survey (parts.after ++ tail) frames table).isSome := by
  obtain ⟨inBranch, frame, closing, chosen, entered, left⟩ :=
    survey_block role found live tail progress.table
  rw [prepare_level_branch tree paths found plain] at preparation
  cases preparation
  refine ⟨enclosed_apply_definitions.mpr inBranch, ?_, frame, closing, chosen, ?_, left⟩
  · intro item member
    have inBranch := (apply_definitions_sublist _ _ _).mem member
    exact plain item ((compose_of_cut found).1.mem_of_branch inBranch)
  · rw [entered, survey_apply_definitions inBranch]

theorem walk_follows {tree : FileTree} {paths : List Path} {items : List Item}
    {progress : Progress} {result : Except Diagnostic (List Line) × Progress}
    (run : (walker tree paths).Run items progress result) (enclosed : Enclosed 0 items)
    (plain : ∀ item ∈ items, item.isInclude = false) : Follows items progress.table result := by
  induction run with
  | nil progress => exact fun _ _ _ => rfl
  | straight roles _ induction =>
      have inert := Item.inert_of_straight roles
      have later := enclosed.tail
      rw [depth_after_inert _ inert] at later
      exact ((induction later (List.forall_mem_cons.mp plain).2).map _).straight inert
  | @misplaced item fault rest progress role => exact absurd role (enclosed.not_misplaced fault)
  | @unclosed item rest name wantsDefined diagnostic progress role found =>
      intro frames live tail
      have inside := enclosed.tail
      rw [depth_after_opening _ (Item.opens_block_of_condition role)] at inside
      have stopped (holds : Bool) (table : MacroTable) :
          survey (rest ++ tail) (⟨true, holds, false⟩ :: frames) table = none :=
        survey_of_cut_error found inside [] rfl ⟨true, holds, false⟩ rfl rfl frames tail table
      rw [List.cons_append, survey_opening _ _ _ role, live, stopped]
      rfl
  | @refused item rest progress after name wantsDefined parts diagnostic role found preparation =>
      have done := prepare_level_branch tree paths found (List.forall_mem_cons.mp plain).2
        (progress.table.isDefined name == wantsDefined) progress
      cases preparation.symm.trans done
  | failed role found preparation _ inside =>
      intro frames live tail
      obtain ⟨closed, kept, frame, closing, chosen, entered, -⟩ :=
        survey_level role found preparation (List.forall_mem_cons.mp plain).2 live tail
      rw [entered, inside closed kept (frame :: frames) chosen closing]
      rfl
  | @block _ _ _ _ _ _ _ _ _ inner _ role found preparation _ _ inside behind =>
      intro frames live tail
      obtain ⟨closed, kept, frame, closing, chosen, entered, left⟩ :=
        survey_level role found preparation (List.forall_mem_cons.mp plain).2 live tail
      have opened := enclosed.tail
      rw [depth_after_opening _ (Item.opens_block_of_condition role)] at opened
      have after := (shaped_of_cut found).enclosed_after opened
      have later := (behind after fun item member =>
        (List.forall_mem_cons.mp plain).2 item ((compose_of_cut found).1.mem_of_after member)).map
          (inner ++ ·)
      rw [entered, inside closed kept (frame :: frames) chosen closing, left,
        later frames live tail]
      rfl

/-- Items that the survey does not refuse close the open blocks, and those that they open. -/
theorem enclosed_of_survey {items : List Item} {frames : List Frame} {table : MacroTable}
    (passed : (survey items frames table).isSome = true) : Enclosed frames.length items := by
  induction items generalizing frames table with
  | nil =>
      cases frames with
      | nil => exact .nil
      | cons frame outer => cases passed
  | cons item rest induction =>
      rcases item.kind_cases with inert | opens | turns | closes | ⟨keyword, unsupported⟩
      · rw [survey_inert _ _ _ inert] at passed
        exact .inert inert (induction passed)
      · obtain ⟨name, wantsDefined, role⟩ := Item.condition_of_opens_block opens
        rw [survey_opening _ _ _ role] at passed
        exact .opening opens (induction passed)
      · cases frames with
        | nil => simp [survey_stray _ _ (.inl turns)] at passed
        | cons frame outer =>
            rw [survey_alternative _ _ _ turns] at passed
            refine .alternative turns ?_
            split at passed
            · split at passed
              · cases passed
              · rw [Option.isSome_map] at passed
                exact induction passed
            · exact induction passed
      · cases frames with
        | nil => simp [survey_stray _ _ (.inr closes)] at passed
        | cons frame outer =>
            rw [survey_end _ _ _ closes] at passed
            exact .ending closes (induction passed)
      · simp [survey_unsupported _ _ _ unsupported] at passed

/-- A source without includes is preprocessed without a failure exactly if its survey refuses
nothing. The machine accepts it if the survey passes over nothing either, so that sources which
it does not accept can succeed, by alternatives in discarded branches. -/
theorem preprocess_succeeds_iff_survey (tree : FileTree) (paths : List Path) (lines : List Line)
    (seeds : MacroTable) (items : List Item) (read : Item.ofLines lines = .ok items)
    (plain : ∀ item ∈ items, item.isInclude = false) :
    ((∃ output, (preprocess tree paths lines seeds).1 = .ok output) ↔
      ∃ overlooked, surveySource items seeds = some overlooked) ∧
    (Accepted items ↔ surveySource items seeds = some 0) := by
  constructor
  · have source (enclosed : Enclosed 0 items) : (surveySource items seeds).isSome =
        (preprocess tree paths lines seeds).1.toOption.isSome := by
      have inside : Enclosed 0 (applyDefinitions items 0 seeds).1 :=
        enclosed_apply_definitions.mpr enclosed
      have level := walk_follows ((walker tree paths).run_walk _
        ⟨(applyDefinitions items 0 seeds).2, []⟩) inside
        (fun item member => plain item ((apply_definitions_sublist _ _ _).mem member)) [] rfl []
      have table : branchTable (items ++ []) seeds = (applyDefinitions items 0 seeds).2 :=
        branch_table_enclosed enclosed rfl seeds
      rw [survey_apply_definitions enclosed, List.append_nil] at level
      rw [List.append_nil] at table
      unfold surveySource preprocess
      rw [read, table, level]
      simp only [prepare_level_plain tree paths plain, survey, Option.isSome_some, Bool.and_true]
    rw [← Option.isSome_iff_exists]
    constructor
    · rintro ⟨output, done⟩
      obtain ⟨others, level, progress, same, prepared, walked⟩ := preprocess_eq_ok done
      obtain rfl : items = others := Except.ok.inj (read.symm.trans same)
      rw [prepare_level_plain tree paths plain] at prepared
      cases prepared
      have enclosed := walked.enclosed done
      rw [source (enclosed_apply_definitions.mp enclosed), done]
      rfl
    · intro passed
      rw [source (enclosed_of_survey passed)] at passed
      cases result : (preprocess tree paths lines seeds).1 with
      | error diagnostic => simp [result, Except.toOption] at passed
      | ok output => exact ⟨output, rfl⟩
  · exact (survey_eq_zero_iff items [] _).symm

/-- A block with two alternatives, in a branch that is selected if a name is defined. -/
def overlookedItems : List Item :=
  [⟨⟨"#ifdef A", ⟨"a.F90", 1⟩⟩, some (.ifDefined "A")⟩,
    ⟨⟨"#ifdef B", ⟨"a.F90", 2⟩⟩, some (.ifDefined "B")⟩,
    ⟨⟨"#else", ⟨"a.F90", 3⟩⟩, some .otherwise⟩, ⟨⟨"#else", ⟨"a.F90", 4⟩⟩, some .otherwise⟩,
    ⟨⟨"#endif", ⟨"a.F90", 5⟩⟩, some .endIf⟩, ⟨⟨"#endif", ⟨"a.F90", 6⟩⟩, some .endIf⟩]

theorem overlooked_alternative_depends_on_names :
    ¬ Accepted overlookedItems ∧
    (∃ output, (preprocess (FileTree.empty []) [] (overlookedItems.map (·.line)) .empty).1 =
      .ok output) ∧
    ¬ ∃ output, (preprocess (FileTree.empty []) [] (overlookedItems.map (·.line))
      (MacroTable.empty.define "A" none)).1 = .ok output := by
  have read : Item.ofLines (overlookedItems.map (·.line)) = .ok overlookedItems := by cbv
  have plain : ∀ item ∈ overlookedItems, item.isInclude = false := by decide
  have discarded : surveySource overlookedItems .empty = some 1 := by decide
  have selected : surveySource overlookedItems (MacroTable.empty.define "A" none) = none := by
    decide
  have without := preprocess_succeeds_iff_survey (FileTree.empty []) []
    (overlookedItems.map (·.line)) .empty overlookedItems read plain
  have withName := preprocess_succeeds_iff_survey (FileTree.empty []) []
    (overlookedItems.map (·.line)) (MacroTable.empty.define "A" none) overlookedItems read plain
  refine ⟨?_, without.1.mpr ⟨1, discarded⟩, ?_⟩
  · rw [without.2, discarded]
    simp
  · rw [withName.1, selected]
    simp

end FortranDeps.Preprocess

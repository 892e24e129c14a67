import FortranDeps.Proofs.Preprocess.Balance
import FortranDeps.Proofs.Preprocess.Emission

/-!
Preprocessing twice. Without includes and definitions the table stays as it is, and the output
consists of the lines that survive, with content expanded. If no expanded line turns into a
directive, a second run meets content and unknown directives only, which it gives back unchanged.
-/

namespace FortranDeps.Preprocess

open Block Text

/-! Levels in which nothing is included or defined. -/

theorem prepare_level_eq_self (tree : FileTree) (paths : List Path) {items : List Item}
    (plain : ∀ item ∈ items, item.role ≠ .consumed) (progress : Progress) :
    prepareLevel tree paths items progress = (.ok items, progress) := by
  have noIncludes : ∀ item ∈ items, item.isInclude = false := by
    intro item member
    exact Item.not_include_of_role (plain item member)
  have applied (depth : Nat) :
      applyDefinitions items depth progress.table = (items, progress.table) := by
    clear noIncludes
    induction items generalizing depth with
    | nil => rfl
    | cons item rest induction =>
        obtain ⟨own, others⟩ := List.forall_mem_cons.mp plain
        rw [apply_definitions_other own, induction others]
  rw [prepare_level_plain tree paths noIncludes, applied]

/-! What is left of a source. -/

/-- What the run gives for a line that survives. -/
def rendered (table : MacroTable) (line : Line) : Line :=
  if lineDirective? line = none then emitLine line table else line

/-- A line that survives wherever it is reached. -/
def Lasting (line : Line) : Prop :=
  lineDirective? line = none ∨ ∃ keyword, lineDirective? line = some (.unknown keyword)

theorem Item.role_content_iff {item : Item} : item.role = .content ↔ item.directive = none := by
  unfold role
  cases item.directive with
  | none => simp
  | some directive => cases directive <;> simp

theorem Item.role_passed_iff {item : Item} :
    item.role = .passed ↔ ∃ keyword, item.directive = some (.unknown keyword) := by
  unfold role
  cases item.directive with
  | none => simp
  | some directive => cases directive <;> simp

theorem lasting_iff {line : Line} :
    Lasting line ↔ (lineItem line).role = .content ∨ (lineItem line).role = .passed := by
  rw [Item.role_content_iff, Item.role_passed_iff]
  rfl

theorem output_eq_rendered {tree : FileTree} {paths : List Path} {line : Line}
    (lasting : Lasting line) (progress : Progress) :
    (walker tree paths).output (lineItem line) progress = [rendered progress.table line] := by
  unfold Walker.output rendered
  rcases lasting_iff.mp lasting with content | passed
  · have none : lineDirective? line = none := Item.role_content_iff.mp content
    rw [content, if_pos none]
    rfl
  · obtain ⟨keyword, unknown⟩ := Item.role_passed_iff.mp passed
    have some : lineDirective? line ≠ none := by
      rw [show lineDirective? line = some (.unknown keyword) from unknown]
      simp
    rw [passed, if_neg some]
    rfl

theorem survey_output {line : Line} (lasting : Lasting line) (state : MacroTable × List Nat) :
    surveyor.output (lineItem line) state = [line] := by
  unfold Walker.output
  rcases lasting_iff.mp lasting with content | passed
  · rw [content]
    rfl
  · rw [passed]
    rfl

/-- The items of lines, none of which includes or defines anything. -/
def Plain (items : List Item) : Prop :=
  ∀ item ∈ items, (∃ line, item = lineItem line) ∧ item.role ≠ .consumed

/-- A run in which nothing is included or defined renders the lines that a survey keeps. -/
theorem survey_of_run {tree : FileTree} {paths : List Path} {items : List Item}
    {progress : Progress} {result : Except Diagnostic (List Line) × Progress}
    (run : (walker tree paths).Run items progress result)
    (plain : Plain items) {out : List Line} (done : result.1 = .ok out) (noted : List Nat) :
    result.2 = progress ∧ ∃ kept final,
      surveyor.Run items (progress.table, noted) (.ok kept, (progress.table, final)) ∧
      out = kept.map (rendered progress.table) ∧
      ∀ line ∈ kept, lineItem line ∈ items ∧ Lasting line := by
  induction run generalizing out noted with
  | nil progress =>
      cases done
      exact ⟨rfl, [], noted, .nil _, rfl, by simp⟩
  | @straight item rest progress result roles later induction =>
      obtain ⟨⟨⟨line, rfl⟩, own⟩, plainLater⟩ := List.forall_mem_cons.mp plain
      obtain ⟨lines, doneLater, rfl⟩ := map_eq_ok.mp done
      obtain ⟨same, kept, final, survey, rfl, lasting⟩ :=
        induction plainLater doneLater noted
      have lasts : Lasting line := by
        rw [lasting_iff]
        rcases roles with content | passed | consumed
        · exact .inl content
        · exact .inr passed
        · exact absurd consumed own
      refine ⟨same, line :: kept, final, ?_, ?_, ?_⟩
      · have step := Walker.Run.straight roles survey
        rw [survey_output lasts] at step
        exact step
      · rw [output_eq_rendered lasts]
        rfl
      · intro other member
        rcases List.mem_cons.mp member with rfl | inRest
        · exact ⟨List.mem_cons_self, lasts⟩
        · obtain ⟨within, lastsLater⟩ := lasting other inRest
          exact ⟨List.mem_cons_of_mem _ within, lastsLater⟩
  | misplaced | unclosed | refused | failed => cases done
  | @block item rest level progress prepared walked name wantsDefined parts inner result role found
      preparation branch behind induction inductionBehind =>
      -- The table does not change, so the survey chooses the same branch and prepares nothing.
      have composed := (compose_of_cut found).1
      let chosen := parts.branch (progress.table.isDefined name == wantsDefined)
      have fromBranch : ∀ other ∈ chosen, other ∈ item :: rest :=
        fun other member => List.mem_cons_of_mem _ (composed.mem_of_branch member)
      have fromAfter : ∀ other ∈ parts.after, other ∈ item :: rest :=
        fun other member => List.mem_cons_of_mem _ (composed.mem_of_after member)
      have plainBranch : Plain chosen := fun other member => plain other (fromBranch other member)
      have plainAfter : Plain parts.after :=
        fun other member => plain other (fromAfter other member)
      have prepares : prepareLevel tree paths chosen progress = (.ok chosen, progress) :=
        prepare_level_eq_self tree paths (fun other member => (plainBranch other member).2) progress
      obtain ⟨lines, doneBehind, rfl⟩ := map_eq_ok.mp done
      have same := prepares.symm.trans preparation
      obtain rfl : chosen = level := Except.ok.inj (congrArg Prod.fst same)
      obtain rfl : progress = prepared := congrArg Prod.snd same
      obtain ⟨walks, kept, middle, survey, rfl, lasting⟩ :=
        induction plainBranch rfl (noted ++ [chosen.length])
      obtain rfl : walked = progress := walks
      obtain ⟨unchanged, later, final, surveyBehind, rfl, lastingBehind⟩ :=
        inductionBehind plainAfter doneBehind middle
      refine ⟨unchanged, kept ++ later, final, ?_, ?_, ?_⟩
      · exact Walker.Run.block role found rfl survey surveyBehind
      · rw [List.map_append]
      · intro line member
        rcases List.mem_append.mp member with inBranch | inAfter
        · obtain ⟨within, lasts⟩ := lasting line inBranch
          exact ⟨fromBranch _ within, lasts⟩
        · obtain ⟨within, lasts⟩ := lastingBehind line inAfter
          exact ⟨fromAfter _ within, lasts⟩

/-- The lines of a source that survive, as they stand in it. -/
def survivors (lines : List Line) (table : MacroTable) : List Line :=
  (surveyor.walk (lines.map lineItem) (table, [])).1.toOption.getD []

theorem preprocess_eq_rendered {tree : FileTree} {paths : List Path} {lines out : List Line}
    {table : MacroTable} {progress : Progress}
    (plain : ∀ line ∈ lines, (lineItem line).role ≠ .consumed)
    (done : preprocess tree paths lines table = (.ok out, progress)) :
    progress = ⟨table, []⟩ ∧ out = (survivors lines table).map (rendered table) ∧
      ∀ line ∈ survivors lines table, line ∈ lines ∧ Lasting line := by
  obtain ⟨items, level, prepared, read, preparation, run⟩ :=
    preprocess_eq_ok (congrArg Prod.fst done)
  have unconsumed : Plain (lines.map lineItem) := by
    intro item member
    obtain ⟨line, inLines, rfl⟩ := List.mem_map.mp member
    exact ⟨⟨line, rfl⟩, plain line inLines⟩
  obtain rfl := of_lines_eq read
  have same := (prepare_level_eq_self tree paths (fun item member => (unconsumed item member).2)
    ⟨table, []⟩).symm.trans preparation
  obtain rfl : lines.map lineItem = level := Except.ok.inj (congrArg Prod.fst same)
  obtain rfl : ⟨table, []⟩ = prepared := congrArg Prod.snd same
  rw [done] at run
  obtain ⟨unchanged, kept, final, survey, rendering, lasting⟩ := survey_of_run run unconsumed rfl []
  have surviving : survivors lines table = kept := by
    unfold survivors
    rw [survey.walk_eq]
    rfl
  rw [surviving]
  refine ⟨unchanged, rendering, ?_⟩
  intro line member
  obtain ⟨within, lasts⟩ := lasting line member
  obtain ⟨other, inLines, sameItem⟩ := List.mem_map.mp within
  obtain rfl : other = line := congrArg Item.line sameItem
  exact ⟨inLines, lasts⟩

/-! The second run. -/

/-- A line that a run gives back as it is. -/
structure Fixed (table : MacroTable) (line : Line) : Prop where
  readable : ∃ directive, Directive.classify line.text = .ok directive
  lasting : Lasting line
  rendered_eq : rendered table line = line

theorem of_lines_of_readable {lines : List Line}
    (readable : ∀ line ∈ lines, ∃ directive, Directive.classify line.text = .ok directive) :
    Item.ofLines lines = .ok (lines.map lineItem) := by
  unfold Item.ofLines
  induction lines with
  | nil => rfl
  | cons line rest induction =>
      obtain ⟨⟨directive, classified⟩, others⟩ := List.forall_mem_cons.mp readable
      have first : Item.ofLine line = .ok (lineItem line) := by
        simp [Item.ofLine, lineItem, lineDirective?, classified, Except.toOption]
      rw [List.mapM_cons, first, induction others]
      rfl

theorem preprocess_fixed (tree : FileTree) (paths : List Path) {lines : List Line}
    {table : MacroTable} (fixed : ∀ line ∈ lines, Fixed table line) :
    preprocess tree paths lines table = (.ok lines, ⟨table, []⟩) := by
  have plain : ∀ item ∈ lines.map lineItem, item.role ≠ .consumed := by
    intro item member
    obtain ⟨line, inLines, rfl⟩ := List.mem_map.mp member
    rcases lasting_iff.mp (fixed line inLines).lasting with role | role <;> simp [role]
  have walks : (walker tree paths).walk (lines.map lineItem) ⟨table, []⟩ =
      (.ok lines, ⟨table, []⟩) := by
    clear plain
    induction lines with
    | nil => exact Walker.walk_nil _ _
    | cons line rest induction =>
        obtain ⟨own, others⟩ := List.forall_mem_cons.mp fixed
        have straight : (lineItem line).role = .content ∨ (lineItem line).role = .passed ∨
            (lineItem line).role = .consumed :=
          (lasting_iff.mp own.lasting).imp_right .inl
        rw [List.map_cons, Walker.walk_straight _ straight, induction others,
          output_eq_rendered own.lasting, own.rendered_eq]
        rfl
  unfold preprocess
  rw [of_lines_of_readable fun line member => (fixed line member).readable]
  simp only [prepare_level_eq_self tree paths plain, walks]

/-- Whether a line is a directive. -/
def BeginsDirective (line : Line) : Prop := (trimStart line.text.toList).head? = some '#'

theorem classify_content {line : Line} (content : ¬ BeginsDirective line) :
    Directive.classify line.text = .ok none := by
  unfold Directive.classify
  split
  · next body hash =>
      unfold BeginsDirective at content
      rw [hash] at content
      exact absurd rfl content
  · rfl

theorem fixed_rendered {table : MacroTable} (terminal : table.Terminal)
    (spares : table.SparesKeywords) {line : Line} (ascii : IsAscii line.text.toList)
    (lasting : Lasting line)
    (content : lineDirective? line = none → ¬ BeginsDirective (emitLine line table)) :
    Fixed table (rendered table line) := by
  rcases lasting with isContent | ⟨keyword, unknown⟩
  · have classified := classify_content (content isContent)
    have again : lineDirective? (emitLine line table) = none := by
      simp [lineDirective?, classified, Except.toOption]
    have same : rendered table line = emitLine line table := if_pos isContent
    rw [same]
    refine ⟨⟨_, classified⟩, .inl again, ?_⟩
    unfold rendered
    rw [if_pos again, emit_line_emit_line terminal spares ascii]
  · have same : rendered table line = line := by
      unfold rendered
      rw [if_neg (by simp [unknown])]
    rw [same]
    refine ⟨?_, .inr ⟨keyword, unknown⟩, same⟩
    unfold lineDirective? at unknown
    cases classified : Directive.classify line.text with
    | ok directive => exact ⟨directive, rfl⟩
    | error fault => simp [classified, Except.toOption] at unknown

/-- Lines of ASCII without includes and definitions are preprocessed once and for all if the table
spares the keywords before a unit's name, its substitutions are terminal and no expanded line turns
into a directive. -/
theorem preprocessing_twice_changes_nothing (tree : FileTree) (paths : List Path)
    {lines out : List Line} {table : MacroTable} {progress : Progress}
    (ascii : ∀ line ∈ lines, IsAscii line.text.toList)
    (plain : ∀ line ∈ lines, (lineItem line).role ≠ .consumed)
    (spares : table.SparesKeywords) (terminal : table.Terminal)
    (done : preprocess tree paths lines table = (.ok out, progress))
    (content : ∀ line ∈ survivors lines table, lineDirective? line = none →
      ¬ BeginsDirective (emitLine line table)) :
    progress = ⟨table, []⟩ ∧ out = (survivors lines table).map (rendered table) ∧
      preprocess tree paths out table = (.ok out, ⟨table, []⟩) := by
  obtain ⟨unchanged, rendering, surviving⟩ := preprocess_eq_rendered plain done
  refine ⟨unchanged, rendering, ?_⟩
  apply preprocess_fixed
  intro line member
  rw [rendering] at member
  obtain ⟨source, survives, rfl⟩ := List.mem_map.mp member
  obtain ⟨inLines, lasting⟩ := surviving source survives
  exact fixed_rendered terminal spares (ascii source inLines) lasting (content source survives)

/-! A flag in the place of a unit's name and elsewhere, and a block with a branch left out. -/

def flagTable : MacroTable := ⟨[("F", none), ("N", some "3 * k")], by decide⟩

def flagLines : List Line :=
  [⟨"use F, only: F ! F", ⟨"a.F90", 1⟩⟩, ⟨"#ifdef N", ⟨"a.F90", 2⟩⟩, ⟨"x = N", ⟨"a.F90", 3⟩⟩,
    ⟨"#else", ⟨"a.F90", 4⟩⟩, ⟨"y = F", ⟨"a.F90", 5⟩⟩, ⟨"#endif", ⟨"a.F90", 6⟩⟩,
    ⟨"#pragma N", ⟨"a.F90", 7⟩⟩]

def flagOutput : List Line :=
  [⟨"use F, only: 1 ! F", ⟨"a.F90", 1⟩⟩, ⟨"x = 3 * k", ⟨"a.F90", 3⟩⟩,
    ⟨"#pragma N", ⟨"a.F90", 7⟩⟩]

theorem flag_table_defined {name : String} {value : Option String}
    (found : flagTable.get? name = some value) :
    (name = "F" ∧ value = none) ∨ (name = "N" ∧ value = some "3 * k") := by
  simpa [flagTable] using MacroTable.mem_of_get? found

theorem flag_table_spares : flagTable.SparesKeywords :=
  MacroTable.spares_of_entries (by decide)

theorem flag_table_terminal : flagTable.Terminal := by
  intro name value found
  rcases flag_table_defined found with ⟨-, rfl⟩ | ⟨-, rfl⟩
  · have lexemes : Lexeme.split ['1'] = [.number ['1']] := by cbv
    show flagTable.Quiet ['1']
    constructor
    · simp [Open, IsQuote]
    · simp [MacroTable.Settled, lexemes]
  · have lexemes : Lexeme.split ['3', ' ', '*', ' ', 'k'] =
        [.number ['3'], .other ' ', .other '*', .other ' ', .word ['k']] := by
      cbv
    have undefined : flagTable.isDefined (String.ofList ['k']) = false := by cbv
    show flagTable.Quiet ['3', ' ', '*', ' ', 'k']
    constructor
    · simp [Open, IsQuote]
    · simp [MacroTable.Settled, lexemes, undefined]

theorem flag_lines_plain : ∀ line ∈ flagLines, (lineItem line).role ≠ .consumed := by
  have others : ∀ line ∈ flagLines,
      (match (lineItem line).role with | .consumed => false | _ => true) = true :=
    List.all_eq_true.mp (by cbv)
  intro line member consumed
  have other := others line member
  rw [consumed] at other
  cases other

theorem flag_survivors : survivors flagLines flagTable =
    [⟨"use F, only: F ! F", ⟨"a.F90", 1⟩⟩, ⟨"x = N", ⟨"a.F90", 3⟩⟩,
      ⟨"#pragma N", ⟨"a.F90", 7⟩⟩] := by
  cbv

theorem flag_output : preprocess (.empty []) [] flagLines flagTable =
    (.ok flagOutput, ⟨flagTable, []⟩) := by
  have read : Item.ofLines flagLines = .ok (flagLines.map lineItem) := by cbv
  have plain : ∀ item ∈ flagLines.map lineItem, item.role ≠ .consumed :=
    List.forall_mem_map.mpr flag_lines_plain
  have walks : (walker (.empty []) []).walk (flagLines.map lineItem) ⟨flagTable, []⟩ =
      (.ok flagOutput, ⟨flagTable, []⟩) := by
    cbv
  unfold preprocess
  rw [read]
  simp only [prepare_level_eq_self _ _ plain, walks]

/-- The flag is kept as the name of a module in both runs. -/
theorem flags_are_expanded_once :
    preprocess (.empty []) [] flagLines flagTable = (.ok flagOutput, ⟨flagTable, []⟩) ∧
    preprocess (.empty []) [] flagOutput flagTable = (.ok flagOutput, ⟨flagTable, []⟩) := by
  have ascii : ∀ line ∈ flagLines, IsAscii line.text.toList := by
    have small : flagLines.all (fun line => line.text.toList.all (·.toNat < 0x80)) = true := by
      cbv
    simpa [IsAscii] using small
  have content : ∀ line ∈ survivors flagLines flagTable, lineDirective? line = none →
      ¬ BeginsDirective (emitLine line flagTable) := by
    have starts : (survivors flagLines flagTable).all (fun line =>
        (lineDirective? line).isSome ||
          (trimStart (emitLine line flagTable).text.toList).head? != some '#') = true := by
      rw [flag_survivors]
      cbv
    intro line member isContent
    have start := List.all_eq_true.mp starts line member
    simpa [BeginsDirective, isContent] using start
  refine ⟨flag_output, ?_⟩
  exact (preprocessing_twice_changes_nothing (.empty []) [] ascii flag_lines_plain flag_table_spares
    flag_table_terminal flag_output content).2.2

end FortranDeps.Preprocess

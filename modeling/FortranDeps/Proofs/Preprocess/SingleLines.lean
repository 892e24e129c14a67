import FortranDeps.Proofs.Preprocess.Relevance
import FortranDeps.Proofs.Text.Lines

/-!
Line feeds never come into a run. The lines of a file have none, so the values that they define
have none, and a table without line feeds in its values expands a line to a line.
-/

namespace FortranDeps.Preprocess

open Text Block

/-! Tables. -/

namespace MacroTable

/-- No value of the table has a line feed. -/
def SingleLines (table : MacroTable) : Prop :=
  ∀ name value, table.get? name = some (some value) → '\n' ∉ value.toList

theorem single_lines_empty : empty.SingleLines := by
  intro name value found
  cases found

namespace SingleLines

variable {table : MacroTable} (single : table.SingleLines)

include single

theorem define (name : String) {value : Option String}
    (own : ∀ text ∈ value, '\n' ∉ text.toList) : (table.define name value).SingleLines := by
  intro other text found
  rw [get?_define] at found
  split at found
  · exact own text (Option.some.inj found)
  · exact single other text found

theorem undefine (name : String) : (table.undefine name).SingleLines := by
  intro other text found
  rw [get?_undefine] at found
  split at found
  · cases found
  · exact single other text found

theorem image {lexeme : Lexeme} (own : '\n' ∉ lexeme.text) (isProtected : Bool) :
    '\n' ∉ lexeme.image table isProtected := by
  cases lexeme with
  | word text =>
      simp only [Lexeme.image]
      cases found : table.get? (String.ofList text) with
      | none => exact own
      | some value =>
          dsimp only
          split
          · exact own
          · cases value with
            | none => decide
            | some value => exact single _ value found
  | literal text | comment text | number text | other c => exact own

theorem expand_from {lexemes : List Lexeme} (own : ∀ lexeme ∈ lexemes, '\n' ∉ lexeme.text)
    (keep : Option Span) (offset : Nat) : '\n' ∉ table.expandFrom keep offset lexemes := by
  induction lexemes generalizing offset with
  | nil => exact List.not_mem_nil
  | cons lexeme rest induction =>
      obtain ⟨first, others⟩ := List.forall_mem_cons.mp own
      unfold MacroTable.expandFrom
      rw [List.mem_append, not_or]
      exact ⟨single.image first _, induction others _⟩

theorem expand {line : String} (own : '\n' ∉ line.toList) (keep : Option Span) :
    '\n' ∉ (table.expand line keep).toList := by
  rw [expand_eq]
  apply single.expand_from
  intro lexeme member inside
  apply own
  rw [← Lexeme.flat_map_text_split line.toList]
  exact List.mem_flatMap.mpr ⟨lexeme, member, inside⟩

end SingleLines

theorem single_lines_of_seeds {seeds : List String} {table : MacroTable}
    (values : ∀ text ∈ seeds, ∀ seed, Seed.parse text = .ok seed →
      ∀ value ∈ seed.value, '\n' ∉ value.toList)
    (done : ofSeeds seeds = .ok table) : table.SingleLines := by
  unfold ofSeeds at done
  generalize started : empty = start at done
  have single : start.SingleLines := started ▸ single_lines_empty
  clear started
  induction seeds generalizing start with
  | nil =>
      cases done
      exact single
  | cons text rest induction =>
      obtain ⟨own, others⟩ := List.forall_mem_cons.mp values
      rw [List.foldlM_cons] at done
      cases parsed : Seed.parse text with
      | error diagnostic =>
          rw [parsed] at done
          cases done
      | ok seed =>
          rw [parsed] at done
          exact induction others _ done (single.define seed.name (own seed parsed))

end MacroTable

/-! Lines and the values that they define. -/

theorem mem_of_mem_trim {text : List Char} {c : Char} (member : c ∈ trim text) : c ∈ text := by
  obtain ⟨lead, trail, -, -, -, whole⟩ := exists_core text
  rw [whole]
  exact List.mem_append_left _ (List.mem_append_right _ member)

theorem mem_of_definition {arguments : List Char} {name value : String}
    (defined : Directive.definition arguments = .ok (.define name (some value))) {c : Char}
    (member : c ∈ value.toList) : c ∈ arguments := by
  simp only [Directive.definition, bind, Except.bind, pure, Except.pure] at defined
  split at defined
  · cases defined
  · split at defined
    · cases defined
    · split_ifs at defined
      · cases defined
      · cases defined
        rw [String.toList_ofList] at member
        exact (List.dropWhile_sublist _).mem (mem_of_mem_trim member)

/-- The value of a definition is a part of its line. -/
theorem mem_of_defined {text name value : String}
    (classified : Directive.classify text = .ok (some (.define name (some value)))) {c : Char}
    (member : c ∈ value.toList) : c ∈ text.toList := by
  unfold Directive.classify at classified
  split at classified
  · next body hash =>
      obtain ⟨directive, found, same⟩ := map_eq_ok.mp classified
      cases same
      have arguments : c ∈ trim ((trimStart body).dropWhile isNameChar) := by
        unfold Directive.ofKeyword at found
        split at found
        case h_2 => exact mem_of_definition found member
        case h_1 | h_3 | h_4 | h_5 =>
          obtain ⟨other, -, same⟩ := map_eq_ok.mp found
          cases same
        all_goals cases found
      have inBody := (List.dropWhile_sublist _).mem
        ((List.dropWhile_sublist _).mem (mem_of_mem_trim arguments))
      apply (List.dropWhile_sublist isBlank).mem
      change c ∈ trimStart text.toList
      rw [hash]
      exact List.mem_cons_of_mem _ inBody
  · cases classified

theorem single_of_read_lines {tree : FileTree} {path : Path} {lines : List Line}
    (read : tree.readLines path = .ok lines) : ∀ line ∈ lines, '\n' ∉ line.text.toList := by
  intro line member
  unfold FileTree.readLines at read
  split at read
  · cases read
    unfold Line.ofText at member
    obtain ⟨⟨piece, number⟩, inside, kept⟩ := List.mem_filterMap.mp member
    simp only at kept
    split at kept
    · cases kept
    · cases kept
      rw [String.toList_ofList]
      exact not_mem_of_mem_lines (List.fst_mem_of_mem_zipIdx inside)
  · cases read

/-- The lines of included files have no line feeds either. -/
theorem single_of_reachable {tree : FileTree} {paths : List Path} {lines : List Line}
    (single : ∀ line ∈ lines, '\n' ∉ line.text.toList) :
    ∀ line ∈ reachable tree paths lines lines, '\n' ∉ line.text.toList := by
  intro line member
  rcases List.mem_append.mp member with own | included
  · exact single line own
  · obtain ⟨outer, -, inside⟩ := List.mem_flatMap.mp included
    split at inside
    · next name directive =>
        cases loaded : loadInclude tree paths name outer.location with
        | error diagnostic => simp [loaded, Except.toOption] at inside
        | ok found =>
            rw [loaded] at inside
            unfold loadInclude at loaded
            split at loaded
            · exact single_of_read_lines loaded line inside
            · cases loaded
    · cases inside

/-! Runs. -/

section Runs

variable {tree : FileTree} {paths : List Path} {lines : List Line}
  (single : ∀ line ∈ reachable tree paths lines lines, '\n' ∉ line.text.toList)

include single

theorem single_lines_apply_definitions {items : List Item}
    (stem : AllStem tree paths lines lines items) (depth : Nat) {table : MacroTable}
    (values : table.SingleLines) : (applyDefinitions items depth table).2.SingleLines := by
  fun_induction applyDefinitions items depth table with
  | case1 => exact values
  | case2 item rest table name value directive induction =>
      obtain ⟨own, others⟩ := List.forall_mem_cons.mp stem
      apply induction others
      apply values.define
      intro text given inside
      have classified := classify_of_of_line own.read
      rw [directive, Option.mem_def.mp given] at classified
      exact single item.line own.reached (mem_of_defined classified inside)
  | case3 item rest table name directive induction =>
      exact induction (List.forall_mem_cons.mp stem).2 (values.undefine name)
  | case4 item rest depth table later final result noDefinition noRemoval induction =>
      exact induction (List.forall_mem_cons.mp stem).2 values

theorem single_lines_prepare_level {items level : List Item} {progress after : Progress}
    (stem : AllStem tree paths lines lines items) (values : progress.table.SingleLines)
    (done : prepareLevel tree paths items progress = (.ok level, after)) :
    after.table.SingleLines := by
  unfold prepareLevel at done
  split at done
  · cases done
  · next spliced loaded found =>
      cases done
      have stemSpliced := all_stem_splice stem (fun _ member _ => member) (congrArg Prod.fst found)
      exact single_lines_apply_definitions single stemSpliced 0 values

theorem single_of_run {items : List Item} {progress : Progress}
    {result : Except Diagnostic (List Line) × Progress}
    (run : (walker tree paths).Run items progress result)
    (stem : AllStem tree paths lines lines items) (values : progress.table.SingleLines)
    {output : List Line} (done : result.1 = .ok output) :
    result.2.table.SingleLines ∧ ∀ line ∈ output, '\n' ∉ line.text.toList := by
  induction run generalizing output with
  | nil =>
      cases done
      exact ⟨values, by simp⟩
  | @straight item rest progress result roles _ induction =>
      obtain ⟨later, found, rfl⟩ := map_eq_ok.mp done
      obtain ⟨own, others⟩ := List.forall_mem_cons.mp stem
      obtain ⟨final, behind⟩ := induction others values found
      have reached := single item.line own.reached
      refine ⟨final, List.forall_mem_append.mpr ⟨?_, behind⟩⟩
      intro line member
      unfold Walker.output at member
      split at member
      · cases List.mem_singleton.mp member
        exact values.expand reached _
      · cases List.mem_singleton.mp member
        exact reached
      · cases member
  | misplaced | unclosed | refused | failed => cases done
  | block _ found preparation _ _ inside behind =>
      obtain ⟨later, ended, rfl⟩ := map_eq_ok.mp done
      have prepared := single_lines_prepare_level single (stem.branch found _) values preparation
      have level := all_stem_prepare_level (stem.branch found _) (fun _ member _ => member)
        preparation
      obtain ⟨walked, inner⟩ := inside level prepared rfl
      obtain ⟨final, after⟩ := behind (stem.after found) walked ended
      exact ⟨final, List.forall_mem_append.mpr ⟨inner, after⟩⟩

end Runs

/-- A file is preprocessed to lines without line feeds, if the seeds have none. -/
theorem single_of_preprocess_file {tree : FileTree} {paths : List Path} {path : Path}
    {seeds : MacroTable} (values : seeds.SingleLines) {output : List Line}
    (done : (preprocessFile tree paths path seeds).1 = .ok output) :
    ∀ line ∈ output, '\n' ∉ line.text.toList := by
  unfold preprocessFile at done
  split at done
  · cases done
  · next lines read =>
      have single : ∀ line ∈ reachable tree paths lines lines, '\n' ∉ line.text.toList :=
        single_of_reachable (single_of_read_lines read)
      obtain ⟨items, level, progress, classified, prepared, run⟩ := preprocess_eq_ok done
      have stem : AllStem tree paths lines lines items := all_stem_of_lines classified
      have table := single_lines_prepare_level single stem values prepared
      have stemLevel := all_stem_prepare_level stem (fun _ member _ => member) prepared
      exact (single_of_run single run stemLevel table done).2

end FortranDeps.Preprocess

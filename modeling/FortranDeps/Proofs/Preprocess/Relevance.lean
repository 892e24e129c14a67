import FortranDeps.Proofs.Files.Staging
import FortranDeps.Proofs.Preprocess.Lexemes
import FortranDeps.Proofs.Preprocess.Origins

/-!
Names that do not matter. A run asks a table for the names that conditions test and for the words
of the content that it emits, and for no others. Two tables that agree on these names choose the
same branches, give the same lines and look up the same includes, and definitions keep them in
agreement.
-/

namespace FortranDeps.Preprocess

open Block

/-! Look-ups in a table that has been changed. -/

namespace MacroTable

theorem lookup_insert_entry (name other : String) (value : Option String)
    (entries : List (String × Option String)) :
    (insertEntry name value entries).lookup other =
      if other = name then some value else entries.lookup other := by
  induction entries with
  | nil =>
      by_cases own : other = name
      · simp [insertEntry, own]
      · simp [insertEntry, own, List.lookup_cons, beq_false_of_ne own]
  | cons entry rest induction =>
      obtain ⟨key, held⟩ := entry
      simp only [insertEntry]
      split
      · by_cases own : other = name
        · simp [own]
        · simp [own, List.lookup_cons, beq_false_of_ne own]
      · next notBefore =>
          split
          · next behind =>
              have apart : name ≠ key := fun same => String.lt_irrefl _ (same ▸ behind)
              rw [List.lookup_cons, List.lookup_cons, induction]
              by_cases own : other = name
              · simp [own, beq_false_of_ne apart]
              · simp [own]
          · next notBehind =>
              have same : key = name :=
                String.le_antisymm (String.not_lt.mp notBefore) (String.not_lt.mp notBehind)
              subst same
              by_cases own : other = key
              · simp [own]
              · simp [own, List.lookup_cons, beq_false_of_ne own]

theorem get?_define (table : MacroTable) (name : String) (value : Option String)
    (other : String) :
    (table.define name value).get? other =
      if other = name then some value else table.get? other :=
  lookup_insert_entry name other value table.entries

theorem get?_undefine (table : MacroTable) (name other : String) :
    (table.undefine name).get? other = if other = name then none else table.get? other :=
  lookup_filter_ne table.entries name other

/-- Two tables that give the same for every name of a list. -/
def AgreeOn (names : List String) (first second : MacroTable) : Prop :=
  ∀ name ∈ names, first.get? name = second.get? name

namespace AgreeOn

variable {names : List String} {first second : MacroTable}

theorem define (agree : AgreeOn names first second) (name : String) (value : Option String) :
    AgreeOn names (first.define name value) (second.define name value) := by
  intro other member
  rw [get?_define, get?_define, agree other member]

theorem undefine (agree : AgreeOn names first second) (name : String) :
    AgreeOn names (first.undefine name) (second.undefine name) := by
  intro other member
  rw [get?_undefine, get?_undefine, agree other member]

theorem is_defined (agree : AgreeOn names first second) {name : String} (member : name ∈ names) :
    first.isDefined name = second.isDefined name := by
  unfold MacroTable.isDefined
  rw [agree name member]

end AgreeOn

end MacroTable

/-! The names that are asked for. -/

/-- The words of a text. What stands in literals, comments and numbers is not among them. -/
def words (text : List Char) : List String :=
  (Lexeme.split text).filterMap fun lexeme =>
    match lexeme with
    | .word word => some (String.ofList word)
    | _ => none

theorem mem_words {text word : List Char} (member : .word word ∈ Lexeme.split text) :
    String.ofList word ∈ words text :=
  List.mem_filterMap.mpr ⟨.word word, member, rfl⟩

/-- The names whose definitions matter for a line: the one that a condition tests, and the words
of content. -/
def asks (line : Line) : List String :=
  match Directive.classify line.text with
  | .ok none => words line.text.toList
  | .ok (some (.ifDefined name)) | .ok (some (.ifUndefined name)) => [name]
  | _ => []

/-- The names whose definitions may matter for a source and the files that it includes. -/
def relevantNames (tree : FileTree) (paths : List Path) (lines : List Line) : List String :=
  (reachable tree paths lines lines).flatMap asks

theorem asks_subset {tree : FileTree} {paths : List Path} {lines : List Line} {item : Item}
    (stems : Stems tree paths lines lines item) :
    asks item.line ⊆ relevantNames tree paths lines := by
  intro name member
  exact List.mem_flatMap.mpr ⟨item.line, stems.reached, member⟩

theorem classify_of_of_line {item : Item} (read : Item.ofLine item.line = .ok item) :
    Directive.classify item.line.text = .ok item.directive := by
  unfold Item.ofLine at read
  split at read
  · next directive classified =>
      rw [classified]
      exact congrArg (Except.ok ·.directive) (Except.ok.inj read)
  · cases read

section Asked

variable {tree : FileTree} {paths : List Path} {lines : List Line} {item : Item}
  (stems : Stems tree paths lines lines item)

include stems

theorem relevant_of_condition {name : String} {wantsDefined : Bool}
    (role : item.role = .condition name wantsDefined) : name ∈ relevantNames tree paths lines := by
  have classified := classify_of_of_line stems.read
  apply asks_subset stems
  unfold asks
  rw [classified]
  unfold Item.role at role
  split at role <;> simp_all

theorem relevant_of_word (content : item.role = .content) {word : List Char}
    (member : .word word ∈ Lexeme.split item.line.text.toList) :
    String.ofList word ∈ relevantNames tree paths lines := by
  have directive : item.directive = none := by
    unfold Item.role at content
    split at content <;> simp_all
  have classified := classify_of_of_line stems.read
  apply asks_subset stems
  unfold asks
  rw [classified, directive]
  exact mem_words member

end Asked

/-! Expansion. -/

namespace MacroTable

variable {names : List String} {first second : MacroTable}

theorem expand_from_agree (agree : AgreeOn names first second) {lexemes : List Lexeme}
    (asked : ∀ word, .word word ∈ lexemes → String.ofList word ∈ names) (keep : Option Span)
    (offset : Nat) :
    first.expandFrom keep offset lexemes = second.expandFrom keep offset lexemes := by
  induction lexemes generalizing offset with
  | nil => rfl
  | cons lexeme rest induction =>
      have later := induction fun word member => asked word (List.mem_cons_of_mem _ member)
      have own (isProtected : Bool) :
          lexeme.image first isProtected = lexeme.image second isProtected := by
        cases lexeme with
        | word word =>
            have same := agree _ (asked word List.mem_cons_self)
            simp only [Lexeme.image, same]
        | literal text | comment text | number text | other c => rfl
      simp only [expandFrom, own, later]

theorem expand_agree (agree : AgreeOn names first second) {line : String}
    (asked : ∀ word, .word word ∈ Lexeme.split line.toList → String.ofList word ∈ names)
    (keep : Option Span) : first.expand line keep = second.expand line keep := by
  apply String.toList_injective
  rw [expand_eq, expand_eq]
  exact expand_from_agree agree asked keep 0

end MacroTable

/-! Two runs in agreement. -/

/-- Two runs with the same result, which have looked up the same includes and end with tables
that agree. -/
structure InAgreement {Value : Type} (names : List String)
    (first second : Except Diagnostic Value × Progress) : Prop where
  result : first.1 = second.1
  loaded : first.2.loaded = second.2.loaded
  tables : first.2.table.AgreeOn names second.2.table

theorem InAgreement.map {Value : Type} {names : List String}
    {first second : Except Diagnostic Value × Progress} (same : InAgreement names first second)
    (f : Value → Value) :
    InAgreement names (first.1.map f, first.2) (second.1.map f, second.2) :=
  ⟨congrArg (Except.map f) same.result, same.loaded, same.tables⟩

theorem apply_definitions_agree {names : List String} {first second : MacroTable}
    (agree : first.AgreeOn names second) (items : List Item) (depth : Nat) :
    (applyDefinitions items depth first).1 = (applyDefinitions items depth second).1 ∧
      (applyDefinitions items depth first).2.AgreeOn names
        (applyDefinitions items depth second).2 := by
  fun_induction applyDefinitions items depth first generalizing second with
  | case1 => exact ⟨rfl, agree⟩
  | case2 item rest table name value directive induction =>
      simp only [applyDefinitions, directive]
      exact induction (agree.define name value)
  | case3 item rest table name directive induction =>
      simp only [applyDefinitions, directive]
      exact induction (agree.undefine name)
  | case4 item rest depth table later final result noDefinition noRemoval induction =>
      have kept : applyDefinitions (item :: rest) depth second =
          (item :: (applyDefinitions rest (depthAfter item depth) second).1,
            (applyDefinitions rest (depthAfter item depth) second).2) := by
        rw [applyDefinitions] <;> assumption
      obtain ⟨same, tables⟩ := induction agree
      rw [kept]
      exact ⟨congrArg (item :: ·) same, tables⟩

theorem prepare_level_agree {names : List String} {first second : Progress}
    (loaded : first.loaded = second.loaded) (agree : first.table.AgreeOn names second.table)
    (tree : FileTree) (paths : List Path) (items : List Item) :
    InAgreement names (prepareLevel tree paths items first)
      (prepareLevel tree paths items second) := by
  unfold prepareLevel
  rw [loaded]
  split
  · exact ⟨rfl, rfl, agree⟩
  · next spliced _ _ =>
      obtain ⟨same, tables⟩ := apply_definitions_agree agree spliced 0
      exact ⟨congrArg Except.ok same, rfl, tables⟩

theorem walk_in_agreement {tree : FileTree} {paths : List Path} {lines : List Line}
    {names : List String} (relevant : relevantNames tree paths lines ⊆ names)
    (items : List Item) (first : Progress) :
    ∀ second, AllStem tree paths lines lines items → first.loaded = second.loaded →
      first.table.AgreeOn names second.table →
      InAgreement names ((walker tree paths).walk items first)
        ((walker tree paths).walk items second) := by
  induction items, first using (walker tree paths).walk_induction with
  | nil state =>
      intro second _ loaded agree
      rw [Walker.walk_nil, Walker.walk_nil]
      exact ⟨rfl, loaded, agree⟩
  | content item rest state role induction =>
      intro second stem loaded agree
      obtain ⟨own, others⟩ := List.forall_mem_cons.mp stem
      have emitted : (walker tree paths).emit item.line state =
          (walker tree paths).emit item.line second := by
        have text := MacroTable.expand_agree agree
          (fun _ member => relevant (relevant_of_word own role member))
          (Units.unitNameSpan item.line.text)
        exact congrArg (Line.mk · item.line.location) text
      rw [Walker.walk_content _ role, Walker.walk_content _ role, emitted]
      exact (induction second others loaded agree).map _
  | passed item rest state role induction =>
      intro second stem loaded agree
      rw [Walker.walk_passed _ role, Walker.walk_passed _ role]
      exact (induction second (List.forall_mem_cons.mp stem).2 loaded agree).map _
  | consumed item rest state role induction =>
      intro second stem loaded agree
      rw [Walker.walk_consumed _ role, Walker.walk_consumed _ role]
      exact induction second (List.forall_mem_cons.mp stem).2 loaded agree
  | misplaced item rest state fault role =>
      intro second _ loaded agree
      rw [Walker.walk_misplaced _ role, Walker.walk_misplaced _ role]
      exact ⟨rfl, loaded, agree⟩
  | block item rest state name wantsDefined role induction =>
      intro second stem loaded agree
      have test : (walker tree paths).isDefined state name =
          (walker tree paths).isDefined second name :=
        agree.is_defined (relevant (relevant_of_condition (List.forall_mem_cons.mp stem).1 role))
      rw [Walker.walk_block _ role, Walker.walk_block _ role, ← test]
      cases found : cut item.line.location rest 0 false with
      | error diagnostic => exact ⟨rfl, loaded, agree⟩
      | ok parts =>
          dsimp only
          generalize chosen :
            parts.branch ((walker tree paths).isDefined state name == wantsDefined) = branch
          -- Both branches are prepared alike, then walked alike, and so is what follows.
          have preparation : InAgreement _ ((walker tree paths).prepare branch state)
              ((walker tree paths).prepare branch second) :=
            prepare_level_agree loaded agree tree paths branch
          cases prepared : (walker tree paths).prepare branch state with
          | mk result entered =>
          cases prepared' : (walker tree paths).prepare branch second with
          | mk result' entered' =>
          rw [prepared, prepared'] at preparation
          obtain ⟨rfl, loaded, agree⟩ := preparation
          cases result with
          | error diagnostic => exact ⟨rfl, loaded, agree⟩
          | ok level =>
              have stemLevel : AllStem tree paths lines lines level :=
                all_stem_prepare_level (chosen ▸ stem.branch found _) (fun _ member _ => member)
                  prepared
              rw [← chosen] at prepared
              obtain ⟨inside, behind⟩ := induction parts level entered found prepared
              have walking := inside entered' stemLevel loaded agree
              dsimp only
              cases walked : (walker tree paths).walk level entered with
              | mk output final =>
              cases walked' : (walker tree paths).walk level entered' with
              | mk output' final' =>
              rw [walked, walked'] at walking
              obtain ⟨rfl, loaded, agree⟩ := walking
              cases output with
              | error diagnostic => exact ⟨rfl, loaded, agree⟩
              | ok inner =>
                  exact (behind inner final walked final' (stem.after found) loaded agree).map _

theorem preprocess_in_agreement {tree : FileTree} {paths : List Path} {lines : List Line}
    {names : List String} (relevant : relevantNames tree paths lines ⊆ names)
    {first second : MacroTable} (agree : first.AgreeOn names second) :
    InAgreement names (preprocess tree paths lines first)
      (preprocess tree paths lines second) := by
  unfold preprocess
  cases read : Item.ofLines lines with
  | error diagnostic => exact ⟨rfl, rfl, agree⟩
  | ok items =>
      have unread : (Progress.mk first []).loaded = (Progress.mk second []).loaded := rfl
      have preparation := prepare_level_agree unread agree tree paths items
      dsimp only
      cases prepared : prepareLevel tree paths items ⟨first, []⟩ with
      | mk result entered =>
      cases prepared' : prepareLevel tree paths items ⟨second, []⟩ with
      | mk result' entered' =>
      rw [prepared, prepared'] at preparation
      obtain ⟨rfl, loaded, agree⟩ := preparation
      cases result with
      | error diagnostic => exact ⟨rfl, loaded, agree⟩
      | ok level =>
          have stem : AllStem tree paths lines lines level :=
            all_stem_prepare_level (all_stem_of_lines read) (fun _ member _ => member) prepared
          exact walk_in_agreement relevant level entered entered' stem loaded agree

/-- Names that a source does not ask for have no influence. Two tables that agree on the names that
are tested and on the words of content, in the source and in the files that it includes, give the
same lines or the same failure, look up the same includes, and end with tables that agree again,
on these names and on every other on which they agreed. In particular a line is the same whether it
is not looked at, because nothing is defined, or it is cut and no word of it is defined. -/
theorem irrelevant_names_have_no_influence (tree : FileTree) (paths : List Path)
    (lines : List Line) (names : List String) (first second : MacroTable)
    (relevant : relevantNames tree paths lines ⊆ names) (agree : first.AgreeOn names second) :
    (preprocess tree paths lines first).1 = (preprocess tree paths lines second).1 ∧
    (preprocess tree paths lines first).2.loaded = (preprocess tree paths lines second).2.loaded ∧
    (preprocess tree paths lines first).2.table.AgreeOn names
      (preprocess tree paths lines second).2.table ∧
    ∀ (table : MacroTable) (line : String) (keep : Option Span),
      (∀ word ∈ words line.toList, table.get? word = none) →
        String.ofList (table.expandFrom keep 0 (Lexeme.split line.toList)) =
            MacroTable.empty.expand line keep ∧
          table.expand line keep = MacroTable.empty.expand line keep := by
  obtain ⟨result, loaded, tables⟩ := preprocess_in_agreement relevant agree
  refine ⟨result, loaded, tables, ?_⟩
  intro table line keep irrelevant
  have agreeing : MacroTable.AgreeOn (words line.toList) table .empty := irrelevant
  have same := MacroTable.expand_agree agreeing (fun _ => mem_words) keep
  refine ⟨?_, same⟩
  rw [← same, ← MacroTable.expand_eq, String.ofList_toList]

/-- A source that names a level only where names are not replaced. -/
def levelSource : List Line :=
  [⟨"#ifdef MPI", ⟨"a.F90", 1⟩⟩, ⟨"  call send(x)  ! LEVEL 2", ⟨"a.F90", 2⟩⟩,
    ⟨"#endif", ⟨"a.F90", 3⟩⟩, ⟨"  print *, 'LEVEL'", ⟨"a.F90", 4⟩⟩]

theorem level_source_names :
    relevantNames (.empty []) [] levelSource = ["MPI", "call", "send", "x", "print"] := by
  cbv

theorem level_is_irrelevant :
    let parallel := MacroTable.empty.define "MPI" none
    (preprocess (.empty []) [] levelSource parallel).1 =
        (preprocess (.empty []) [] levelSource (parallel.define "LEVEL" (some "2"))).1 ∧
      (MacroTable.empty.define "LEVEL" (some "2")).expand "print *, 'LEVEL'" none =
        MacroTable.empty.expand "print *, 'LEVEL'" none := by
  intro parallel
  have agree : parallel.AgreeOn ["MPI", "call", "send", "x", "print"]
      (parallel.define "LEVEL" (some "2")) := by
    intro name member
    have other : name ≠ "LEVEL" := by
      rintro rfl
      simp at member
    exact ((MacroTable.get?_define parallel _ _ _).trans (if_neg other)).symm
  have influence := irrelevant_names_have_no_influence (.empty []) [] levelSource _ parallel
    (parallel.define "LEVEL" (some "2")) (fun _ => level_source_names ▸ id) agree
  refine ⟨influence.1, (influence.2.2.2 _ _ none ?_).2⟩
  have named : words "print *, 'LEVEL'".toList = ["print"] := by cbv
  intro word member
  rw [named, List.mem_singleton] at member
  rw [member, MacroTable.get?_define]
  rfl

end FortranDeps.Preprocess

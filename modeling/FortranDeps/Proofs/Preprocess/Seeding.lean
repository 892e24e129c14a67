import FortranDeps.Proofs.Preprocess.Origins
import FortranDeps.Proofs.Text.Runs

/-!
Definitions from outside. A seed and a directive are read by different rules, a name and a value
with an equals sign or with blanks between, and give the same entry. A source that starts with
definitions is prepared as it would be with these entries in its table, so the two runs can differ
only in what they leave behind when the preparation of the whole source fails.
-/

namespace FortranDeps.Preprocess

open Text

/-- A definition that can be written as a seed and as a directive. -/
structure Definition where
  name : String
  value : Option String
  isName : Directive.isIdentifier name.toList = true
  hasValue : ∀ text ∈ value, trim text.toList ≠ []

namespace Definition

/-- The definition as it is given from outside of a source. -/
def seed (definition : Definition) : String :=
  match definition.value with
  | none => definition.name
  | some value => definition.name ++ "=" ++ value

/-- The definition as it is written in a source. -/
def text (definition : Definition) : String :=
  match definition.value with
  | none => "#define " ++ definition.name
  | some value => "#define " ++ definition.name ++ " " ++ value

/-- The value without the blanks around it. -/
def content (definition : Definition) : Option String :=
  definition.value.map fun value => String.ofList (trim value.toList)

def enter (definition : Definition) (table : MacroTable) : MacroTable :=
  table.define definition.name definition.content

/-! The two ways to read a definition. -/

theorem name_chars (definition : Definition) :
    (∀ c ∈ definition.name.toList, isNameChar c = true) ∧ definition.name.toList ≠ [] := by
  have isName := definition.isName
  cases same : definition.name.toList with
  | nil =>
      rw [same] at isName
      cases isName
  | cons first rest =>
      rw [same, Directive.isIdentifier, Bool.and_eq_true, List.all_eq_true] at isName
      refine ⟨List.forall_mem_cons.mpr ⟨?_, isName.2⟩, List.cons_ne_nil first rest⟩
      have start := isName.1
      simp only [isNameStart, Bool.or_eq_true] at start
      simp only [isNameChar, Char.isAlphanum, Bool.or_eq_true]
      exact start.imp .inl id

theorem ne_of_is_name_char {c mark : Char} (name : isNameChar c = true)
    (other : isNameChar mark = false) : c ≠ mark := by
  rintro rfl
  rw [name] at other
  cases other

theorem parse_seed (definition : Definition) :
    Seed.parse definition.seed = .ok ⟨definition.name, definition.content⟩ := by
  obtain ⟨names, -⟩ := definition.name_chars
  have members : ∀ c ∈ definition.name.toList, decide (c ≠ '=') = true :=
    fun c member => decide_eq_true (ne_of_is_name_char (names c member) (by decide))
  have trimmed := trim_eq_self (compact_of_names names)
  -- What follows the name is nothing, or begins with the equals sign.
  have parsed (rest : List Char) (stops : Stops (fun c => decide (c ≠ '=')) rest)
      (written : definition.seed.toList = definition.name.toList ++ rest) :
      Seed.parse definition.seed =
        .ok ⟨definition.name, rest.tail?.map fun value => String.ofList (trim value)⟩ := by
    simp only [Seed.parse, written, take_while_run members stops, drop_while_run members stops,
      trimmed, definition.isName, if_true, String.ofList_toList]
    cases rest <;> rfl
  cases given : definition.value with
  | none =>
      rw [parsed [] (by simp [Stops]) (by simp [seed, given])]
      simp [content, given]
  | some value =>
      rw [parsed ('=' :: value.toList) (stops_cons (by decide) _) (by simp [seed, given])]
      simp [content, given]

/-- The name in the arguments of a definition ends at the first blank. -/
theorem definition_eq (definition : Definition) {rest : List Char}
    (stops : Stops (!isBlank ·) rest) :
    Directive.definition (definition.name.toList ++ rest) =
      .ok (.define definition.name
        (if (trim rest).isEmpty then none else some (String.ofList (trim rest)))) := by
  obtain ⟨names, nonempty⟩ := definition.name_chars
  have members : ∀ c ∈ definition.name.toList, (!isBlank c) = true := by
    intro c member
    rw [is_blank_of_is_name_char (names c member)]
    rfl
  have plain : definition.name.toList.contains '(' = false := by
    rw [List.contains_eq_mem, decide_eq_false_iff_not]
    intro member
    exact ne_of_is_name_char (names '(' member) (by decide) rfl
  have some : definition.name.toList.isEmpty = false := List.isEmpty_eq_false_iff.mpr nonempty
  simp only [Directive.definition, take_while_run members stops, drop_while_run members stops,
    plain, Directive.checkName, some, definition.isName, String.ofList_toList]
  rfl

theorem classify_eq {rest : List Char} (text : String)
    (written : text.toList = "#define ".toList ++ rest) :
    Directive.classify text = some <$> Directive.definition (trim (' ' :: rest)) := by
  have split : text.toList = '#' :: ("define".toList ++ ' ' :: rest) := written
  have members : ∀ c ∈ "define".toList, isNameChar c = true := List.all_eq_true.mp (by cbv)
  have stops : Stops isNameChar (' ' :: rest) := stops_cons (by decide) rest
  have body : trimStart ("define".toList ++ ' ' :: rest) = "define".toList ++ ' ' :: rest :=
    trim_start_eq_self (stops_cons (by decide) _)
  have whole : trimStart text.toList = '#' :: ("define".toList ++ ' ' :: rest) := by
    rw [split]
    exact trim_start_eq_self (stops_cons (by decide) _)
  simp only [Directive.classify, whole, body, take_while_run members stops,
    drop_while_run members stops]
  rfl

theorem classify_text (definition : Definition) :
    Directive.classify definition.text =
      .ok (some (.define definition.name definition.content)) := by
  obtain ⟨names, nonempty⟩ := definition.name_chars
  have compact := compact_of_names names
  have nothing : Blanks [] := by simp [Blanks]
  have spaced {more : List Char} (blanks : Blanks more) : Blanks (' ' :: more) :=
    List.forall_mem_cons.mpr ⟨by decide, blanks⟩
  cases given : definition.value with
  | none =>
      have written : definition.text.toList = "#define ".toList ++ definition.name.toList := by
        simp [text, given]
      have arguments := trim_around (spaced nothing) compact nothing
      have read := definition.definition_eq (show Stops (!isBlank ·) [] by simp [Stops])
      rw [List.append_nil] at arguments read
      rw [classify_eq _ written]
      change some <$> Directive.definition (trim ([' '] ++ definition.name.toList)) = _
      rw [arguments, read, content, given]
      rfl
  | some value =>
      have written : definition.text.toList =
          "#define ".toList ++ (definition.name.toList ++ ' ' :: value.toList) := by
        simp [text, given]
      have own : definition.content = some (String.ofList (trim value.toList)) := by
        rw [content, given]
        rfl
      have nonblank := definition.hasValue value given
      obtain ⟨lead, trail, before, behind, core, split⟩ := exists_core value.toList
      rw [classify_eq _ written, own]
      generalize trim value.toList = trimmed at core split nonblank ⊢
      -- The blanks behind the value are dropped first, and those before it with the name.
      have arguments : trim (' ' :: (definition.name.toList ++ ' ' :: value.toList)) =
          definition.name.toList ++ ' ' :: (lead ++ trimmed) := by
        have whole : Compact (definition.name.toList ++ ' ' :: lead ++ trimmed) :=
          compact.around core nonempty nonblank
        have kept := trim_around (spaced nothing) whole behind
        rw [split]
        simpa [List.append_assoc] using kept
      have inner : trim (' ' :: (lead ++ trimmed)) = trimmed := by
        have kept := trim_around (spaced before) core nothing
        rwa [List.append_nil] at kept
      rw [arguments, definition.definition_eq (stops_cons (by decide) _), inner,
        if_neg (by simpa using nonblank)]
      rfl

end Definition

/-! A source that starts with definitions. -/

/-- The lines that give definitions in a source. -/
def definingLines (definitions : List (Definition × Location)) : List Line :=
  definitions.map fun (definition, location) => ⟨definition.text, location⟩

def definingItems (definitions : List (Definition × Location)) : List Item :=
  definitions.map fun (definition, location) =>
    ⟨⟨definition.text, location⟩, some (.define definition.name definition.content)⟩

/-- The table that holds the definitions; of two with the same name the later one wins. -/
def enterAll (definitions : List (Definition × Location)) (table : MacroTable) : MacroTable :=
  definitions.foldl (fun table given => given.1.enter table) table

theorem of_seeds_definitions (definitions : List (Definition × Location)) :
    MacroTable.ofSeeds (definitions.map (·.1.seed)) = .ok (enterAll definitions .empty) := by
  unfold MacroTable.ofSeeds enterAll
  generalize MacroTable.empty = table
  induction definitions generalizing table with
  | nil => rfl
  | cons given rest induction =>
      rw [List.map_cons, List.foldlM_cons, Definition.parse_seed, List.foldl_cons]
      exact induction (given.1.enter table)

theorem of_lines_defining (definitions : List (Definition × Location)) (lines : List Line) :
    Item.ofLines (definingLines definitions ++ lines) =
      (Item.ofLines lines).map (definingItems definitions ++ ·) := by
  unfold Item.ofLines
  induction definitions with
  | nil =>
      change lines.mapM Item.ofLine = (lines.mapM Item.ofLine).map id
      cases lines.mapM Item.ofLine <;> rfl
  | cons given rest induction =>
      have own : Item.ofLine ⟨given.1.text, given.2⟩ = .ok ⟨⟨given.1.text, given.2⟩,
          some (.define given.1.name given.1.content)⟩ := by
        rw [Item.ofLine, Definition.classify_text]
      change (⟨given.1.text, given.2⟩ :: (definingLines rest ++ lines)).mapM Item.ofLine = _
      rw [List.mapM_cons, own, induction]
      cases lines.mapM Item.ofLine <;> rfl

theorem splice_defining (tree : FileTree) (paths : List Path)
    (definitions : List (Definition × Location)) (items : List Item) :
    splice tree paths (definingItems definitions ++ items) 0 =
      ((splice tree paths items 0).1.map (definingItems definitions ++ ·),
        (splice tree paths items 0).2) := by
  induction definitions with
  | nil =>
      change splice tree paths items 0 =
        ((splice tree paths items 0).1.map id, (splice tree paths items 0).2)
      cases splice tree paths items 0 with
      | mk result loaded => cases result <;> rfl
  | cons given rest induction =>
      change splice tree paths (_ :: (definingItems rest ++ items)) 0 = _
      rw [splice_other _ _ (.inl rfl), depth_after_inert 0 rfl, induction]
      cases (splice tree paths items 0).1 <;> rfl

theorem apply_definitions_defining (definitions : List (Definition × Location))
    (items : List Item) (table : MacroTable) :
    applyDefinitions (definingItems definitions ++ items) 0 table =
      applyDefinitions items 0 (enterAll definitions table) := by
  induction definitions generalizing table with
  | nil => rfl
  | cons given rest induction => exact induction (given.1.enter table)

/-- The whole source can be prepared: its lines can be read as items, and the includes outside of
blocks can be spliced. The file of such an include is found and read, its lines can be read as items
too, and none of them is an include. -/
def Prepares (tree : FileTree) (paths : List Path) (lines : List Line) : Prop :=
  ∃ items spliced, Item.ofLines lines = .ok items ∧ (splice tree paths items 0).1 = .ok spliced

/-- To give definitions from outside is to write them in front of the source. The lines or the
failure are the same, and so are the includes that are looked up. If the whole source can be
prepared, as it always can where the run succeeds, the tables are the same too; otherwise the run
stops before it applies a definition, and each table is as it was at the start. -/
theorem seeding_is_defining (tree : FileTree) (paths : List Path)
    (definitions : List (Definition × Location)) (lines : List Line) :
    ∃ table, MacroTable.ofSeeds (definitions.map (·.1.seed)) = .ok table ∧
      (preprocess tree paths lines table).1 =
        (preprocess tree paths (definingLines definitions ++ lines) .empty).1 ∧
      (preprocess tree paths lines table).2.loaded =
        (preprocess tree paths (definingLines definitions ++ lines) .empty).2.loaded ∧
      (Prepares tree paths lines → (preprocess tree paths lines table).2.table =
        (preprocess tree paths (definingLines definitions ++ lines) .empty).2.table) ∧
      (∀ output, (preprocess tree paths lines table).1 = .ok output → Prepares tree paths lines) ∧
      (¬ Prepares tree paths lines → (preprocess tree paths lines table).2.table = table ∧
        (preprocess tree paths (definingLines definitions ++ lines) .empty).2.table = .empty) := by
  refine ⟨enterAll definitions .empty, of_seeds_definitions definitions, ?_⟩
  unfold preprocess
  rw [of_lines_defining]
  cases read : Item.ofLines lines with
  | error diagnostic =>
      have never : ¬ Prepares tree paths lines := by
        rintro ⟨items, spliced, found, -⟩
        rw [read] at found
        cases found
      refine ⟨rfl, rfl, fun prepares => absurd prepares never, ?_, fun _ => ⟨rfl, rfl⟩⟩
      rintro output ⟨⟩
  | ok items =>
      simp only [Except.map, prepareLevel, splice_defining]
      cases spliced : splice tree paths items 0 with
      | mk result loaded =>
          cases result with
          | error diagnostic =>
              have never : ¬ Prepares tree paths lines := by
                rintro ⟨others, found, again, done⟩
                rw [read] at again
                cases again
                rw [spliced] at done
                cases done
              refine ⟨rfl, rfl, fun prepares => absurd prepares never, ?_, fun _ => ⟨rfl, rfl⟩⟩
              rintro output ⟨⟩
          | ok level =>
              have prepares : Prepares tree paths lines :=
                ⟨items, level, read, congrArg Prod.fst spliced⟩
              simp only [apply_definitions_defining]
              exact ⟨trivial, trivial, fun _ => trivial, fun _ _ => prepares,
                fun never => absurd prepares never⟩

/-- Two definitions of one name, the second with blanks and an equals sign in its value. -/
def kindDefinitions : List (Definition × Location) :=
  [(⟨"KIND", none, by decide, by simp⟩, ⟨"a.F90", 1⟩),
    (⟨"KIND", some "  (a = 8) ", by decide, by decide⟩, ⟨"a.F90", 2⟩)]

theorem kind_seeds_are_definitions :
    ∃ table, MacroTable.ofSeeds ["KIND", "KIND=  (a = 8) "] = .ok table ∧
      (preprocess (.empty []) [] [⟨"real(KIND) :: x", ⟨"a.F90", 3⟩⟩] table).1 =
        (preprocess (.empty []) [] (definingLines kindDefinitions ++
          [⟨"real(KIND) :: x", ⟨"a.F90", 3⟩⟩]) .empty).1 ∧
      (preprocess (.empty []) [] [⟨"real(KIND) :: x", ⟨"a.F90", 3⟩⟩] table).2.table =
        (preprocess (.empty []) [] (definingLines kindDefinitions ++
          [⟨"real(KIND) :: x", ⟨"a.F90", 3⟩⟩]) .empty).2.table := by
  have prepares : Prepares (.empty []) [] [⟨"real(KIND) :: x", ⟨"a.F90", 3⟩⟩] :=
    ⟨[⟨⟨"real(KIND) :: x", ⟨"a.F90", 3⟩⟩, none⟩], _, by cbv, rfl⟩
  obtain ⟨table, seeds, same, -, tables, -⟩ :=
    seeding_is_defining (.empty []) [] kindDefinitions [⟨"real(KIND) :: x", ⟨"a.F90", 3⟩⟩]
  exact ⟨table, seeds, same, tables prepares⟩

/-- A flag that is given in front of a condition without a name. -/
def flagDefinition : List (Definition × Location) :=
  [(⟨"A", none, by decide, by simp⟩, ⟨"a.F90", 1⟩)]

theorem early_failure_leaves_no_definition :
    MacroTable.ofSeeds ["A"] = .ok (MacroTable.empty.define "A" none) ∧
    (preprocess (.empty []) [] [⟨"#ifdef", ⟨"a.F90", 2⟩⟩]
        (MacroTable.empty.define "A" none)).2.table ≠
      (preprocess (.empty []) [] (definingLines flagDefinition ++ [⟨"#ifdef", ⟨"a.F90", 2⟩⟩])
        .empty).2.table := by
  have unnamed : Directive.classify "#ifdef" = .error (.missingName "ifdef") := by cbv
  refine ⟨of_seeds_definitions flagDefinition, ?_⟩
  unfold preprocess
  rw [of_lines_defining, of_lines_unreadable unnamed]
  decide

end FortranDeps.Preprocess

import FortranDeps.Proofs.Build.UseAccounting
import FortranDeps.Proofs.Text.LetterCase
import FortranDeps.Proofs.Units.Rescan
import Mathlib.Data.List.Forall2

/-!
The scan of lines without regard to letter case. Every reader of a part of a statement reads from a
text in small letters what it reads from the text itself, in small letters. So lines that differ in
the case of ASCII letters only declare the same unit and use the same modules, and a name that is
declared in one case is found by a use, and passed over by a skip set, in any other.
-/

namespace FortranDeps.Units

open Text

/-! The readers of the parts of a statement. -/

theorem folded_to_lower (c : Char) : folded c.toLower = folded c :=
  to_lower_invariant folded (by decide) c

theorem small_letters_small_letters (text : List Char) :
    smallLetters (smallLetters text) = smallLetters text := by
  have again (c : Char) : c.toLower.toLower = c.toLower :=
    to_lower_invariant Char.toLower (by decide) c
  unfold smallLetters
  rw [List.map_map]
  exact List.map_congr_left fun c _ => again c

theorem map_folded_small_letters (text : List Char) :
    (smallLetters text).map folded = text.map folded := by
  unfold smallLetters
  rw [List.map_map]
  exact List.map_congr_left fun c _ => folded_to_lower c

theorem length_small_letters (text : List Char) : (smallLetters text).length = text.length :=
  List.length_map _

theorem read_keyword_small_letters (keyword text : List Char) :
    readKeyword keyword (smallLetters text) =
      (readKeyword keyword text).map (Prod.map smallLetters smallLetters) := by
  have front : (smallLetters text).take keyword.length =
      smallLetters (text.take keyword.length) := List.map_take.symm
  have back : (smallLetters text).drop keyword.length =
      smallLetters (text.drop keyword.length) := List.map_drop.symm
  unfold readKeyword
  simp only [front, back, map_folded_small_letters]
  split <;> rfl

theorem read_blanks_small_letters (text : List Char) :
    readBlanks (smallLetters text) = (readBlanks text).map smallLetters := by
  cases text with
  | nil => rfl
  | cons c rest =>
      rw [small_letters_cons, readBlanks, readBlanks, is_blank_to_lower, trim_start_small_letters]
      split <;> rfl

theorem read_name_small_letters (text : List Char) :
    readName (smallLetters text) = (readName text).map (Prod.map smallLetters smallLetters) := by
  cases text with
  | nil => rfl
  | cons c rest =>
      rw [small_letters_cons, readName, readName, folded_to_lower,
        take_while_small_letters is_word_char_to_lower,
        drop_while_small_letters is_word_char_to_lower]
      split <;> rfl

theorem read_nature_comma {text rest : List Char} (comma : trimStart text = ',' :: rest) :
    readNature text =
      (readKeyword "intrinsic".toList (trimStart rest) <|>
        readKeyword "non_intrinsic".toList (trimStart rest)).map fun read =>
          (some read.1, read.2) := by
  unfold readNature
  split
  · next following same =>
      rw [comma] at same
      cases same
      dsimp only
      generalize (readKeyword "intrinsic".toList (trimStart rest) <|>
        readKeyword "non_intrinsic".toList (trimStart rest)) = read
      cases read <;> rfl
  · next absent => exact absurd comma (absent rest)

theorem read_nature_absent {text : List Char} (absent : ∀ rest, trimStart text ≠ ',' :: rest) :
    readNature text = some (none, text) := by
  unfold readNature
  split
  · next rest comma => exact absurd comma (absent rest)
  · rfl

theorem read_nature_small_letters (text : List Char) :
    readNature (smallLetters text) =
      (readNature text).map (Prod.map (Option.map smallLetters) smallLetters) := by
  by_cases comma : ∃ rest, trimStart text = ',' :: rest
  · obtain ⟨rest, start⟩ := comma
    have lowered : trimStart (smallLetters text) = ',' :: smallLetters rest := by
      rw [trim_start_small_letters, start]
      rfl
    rw [read_nature_comma start, read_nature_comma lowered, trim_start_small_letters,
      read_keyword_small_letters, read_keyword_small_letters]
    cases readKeyword "intrinsic".toList (trimStart rest) with
    | some read => rfl
    | none => cases readKeyword "non_intrinsic".toList (trimStart rest) <;> rfl
  · have absent : ∀ rest, trimStart text ≠ ',' :: rest := fun rest same => comma ⟨rest, same⟩
    rw [read_nature_absent absent, read_nature_absent]
    · rfl
    · intro rest start
      rw [trim_start_small_letters] at start
      obtain ⟨own, same, -⟩ := small_letters_eq_cons (by decide) start
      exact absent own same

theorem read_separator_colons {text rest : List Char}
    (colons : trimStart text = ':' :: ':' :: rest) :
    readSeparator text = some (trimStart rest) := by
  unfold readSeparator
  split
  · next following same =>
      rw [colons] at same
      cases same
      rfl
  · next absent => exact absurd colons (absent rest)

theorem read_separator_blanks {text : List Char}
    (absent : ∀ rest, trimStart text ≠ ':' :: ':' :: rest) :
    readSeparator text = readBlanks text := by
  unfold readSeparator
  split
  · next rest colons => exact absurd colons (absent rest)
  · rfl

theorem read_separator_small_letters (text : List Char) :
    readSeparator (smallLetters text) = (readSeparator text).map smallLetters := by
  by_cases colons : ∃ rest, trimStart text = ':' :: ':' :: rest
  · obtain ⟨rest, start⟩ := colons
    have lowered : trimStart (smallLetters text) = ':' :: ':' :: smallLetters rest := by
      rw [trim_start_small_letters, start]
      rfl
    rw [read_separator_colons start, read_separator_colons lowered, trim_start_small_letters]
    rfl
  · have absent : ∀ rest, trimStart text ≠ ':' :: ':' :: rest := fun rest same =>
      colons ⟨rest, same⟩
    rw [read_separator_blanks absent, read_separator_blanks, read_blanks_small_letters]
    intro rest start
    rw [trim_start_small_letters] at start
    obtain ⟨first, same, behind⟩ := small_letters_eq_cons (by decide) start
    obtain ⟨own, rfl, -⟩ := small_letters_eq_cons (by decide) behind
    exact absent own same

theorem ends_statement_small_letters (text : List Char) :
    endsStatement (smallLetters text) = endsStatement text := by
  have feed : ∀ comment : List Char,
      (smallLetters comment).contains '\n' = comment.contains '\n' := by
    intro comment
    rw [Bool.eq_iff_iff, List.contains_iff_mem, List.contains_iff_mem, smallLetters, List.mem_map]
    constructor
    · rintro ⟨c, member, same⟩
      rwa [(to_lower_eq_iff '\n' (by decide) c).mp same] at member
    · intro member
      exact ⟨'\n', member, rfl⟩
  unfold endsStatement
  rw [trim_start_small_letters]
  cases trimStart text with
  | nil => rfl
  | cons c comment =>
      have mark := to_lower_invariant (· == '!') (by decide) c
      simp only [small_letters_cons, feed, mark]

/-! Whole statements. -/

/-- A statement with its letters in lower case. -/
def Statement.small {Property : Type} (statement : Statement Property) : Statement Property :=
  ⟨statement.property, smallLetters statement.before, smallLetters statement.name,
    smallLetters statement.after⟩

section Statements

variable {Property : Type}

theorem Statement.of_end_small_letters (line : List Char) (property : Property)
    (name after : List Char) :
    ofEnd (smallLetters line) property (smallLetters name) (smallLetters after) =
      (ofEnd line property name after).small := by
  unfold ofEnd small
  simp only [length_small_letters]
  congr 1
  exact List.map_take.symm

theorem Statement.content_small (statement : Statement Property) :
    statement.small.content = statement.content := by
  unfold content unitName small
  rw [lower_small_letters]

theorem Statement.name_span_small (statement : Statement Property) :
    statement.small.nameSpan = statement.nameSpan := by
  unfold nameSpan small
  simp only [byte_length_small_letters]

end Statements

theorem use_statement?_small_letters (line : List Char) :
    useStatement? (smallLetters line) = (useStatement? line).map Statement.small := by
  unfold useStatement?
  rw [trim_start_small_letters, read_keyword_small_letters]
  cases readKeyword "use".toList (trimStart line) with
  | none => rfl
  | some keyword =>
      simp only [Option.map_some, Option.bind_eq_bind, Option.bind_some, Prod.map_snd]
      rw [read_nature_small_letters]
      cases readNature keyword.2 with
      | none => rfl
      | some nature =>
          simp only [Option.map_some, Option.bind_some, Prod.map_snd]
          rw [read_separator_small_letters]
          cases readSeparator nature.2 with
          | none => rfl
          | some named =>
              simp only [Option.map_some, Option.bind_some]
              rw [read_name_small_letters]
              cases readName named with
              | none => rfl
              | some name =>
                  have marked : (nature.1.map smallLetters).any
                      (fun word => word.map Char.toLower == "intrinsic".toList) =
                      nature.1.any (fun word => word.map Char.toLower == "intrinsic".toList) := by
                    cases nature.1 with
                    | none => rfl
                    | some word =>
                        exact congrArg (· == "intrinsic".toList) (small_letters_small_letters word)
                  simp only [Option.map_some, Option.bind_some, Prod.map_fst, Prod.map_snd, marked,
                    Statement.of_end_small_letters]
                  rfl

theorem unit_statement?_small_letters (line : List Char) :
    unitStatement? (smallLetters line) = (unitStatement? line).map Statement.small := by
  have kinds (body : List Char) :
      (((readKeyword "module".toList (smallLetters body)).map fun found =>
          (UnitKind.moduleUnit, found.2)) <|>
        ((readKeyword "program".toList (smallLetters body)).map fun found =>
          (UnitKind.mainProgram, found.2))) =
      (((readKeyword "module".toList body).map fun found => (UnitKind.moduleUnit, found.2)) <|>
        ((readKeyword "program".toList body).map fun found =>
          (UnitKind.mainProgram, found.2))).map (Prod.map id smallLetters) := by
    rw [read_keyword_small_letters, read_keyword_small_letters]
    cases readKeyword "module".toList body with
    | some found => rfl
    | none => cases readKeyword "program".toList body <;> rfl
  unfold unitStatement?
  simp only [trim_start_small_letters, kinds]
  generalize ((readKeyword "module".toList (trimStart line)).map _ <|> _) = kind
  cases kind with
  | none => rfl
  | some kind =>
      simp only [Option.map_some, Option.bind_eq_bind, Option.bind_some, Prod.map_snd]
      rw [read_blanks_small_letters]
      cases readBlanks kind.2 with
      | none => rfl
      | some named =>
          simp only [Option.map_some, Option.bind_some]
          rw [read_name_small_letters]
          cases readName named with
          | none => rfl
          | some name =>
              simp only [Option.map_some, Option.bind_some, Prod.map_fst, Prod.map_snd,
                ends_statement_small_letters, Statement.of_end_small_letters, id_eq]
              split <;> rfl

/-- What a reader of statements gives does not depend on letter case if it is the same for a
statement and its small letters. -/
theorem map_same_letters {Property Value : Type} {read : List Char → Option (Statement Property)}
    (small : ∀ line, read (smallLetters line) = (read line).map Statement.small)
    {value : Statement Property → Value}
    (blind : ∀ statement, value statement.small = value statement)
    {line other : List Char} (same : SameLetters line other) :
    (read line).map value = (read other).map value := by
  have lowered (text : List Char) :
      (read (smallLetters text)).map value = (read text).map value := by
    rw [small, Option.map_map]
    exact Option.map_congr fun statement _ => blind statement
  rw [← lowered line, ← lowered other, same]

theorem use_content?_same_letters {line other : List Char} (same : SameLetters line other) :
    useContent? line = useContent? other :=
  map_same_letters use_statement?_small_letters Statement.content_small same

theorem unit_content?_same_letters {line other : List Char} (same : SameLetters line other) :
    unitContent? line = unitContent? other :=
  map_same_letters unit_statement?_small_letters Statement.content_small same

theorem unit_name_span_same_letters {line other : String}
    (same : SameLetters line.toList other.toList) : unitNameSpan line = unitNameSpan other := by
  unfold unitNameSpan
  rw [map_same_letters use_statement?_small_letters Statement.name_span_small same,
    map_same_letters unit_statement?_small_letters Statement.name_span_small same]

/-! Lists of lines. -/

/-- Line by line the same locations, and texts that differ at most in the case of ASCII letters. -/
def CaseVariant (lines others : List Line) : Prop :=
  List.Forall₂ (fun line other =>
    SameLetters line.text.toList other.text.toList ∧ line.location = other.location) lines others

section Variants

variable {lines others : List Line} (variant : CaseVariant lines others)

include variant

theorem CaseVariant.filter_map_eq {Value : Type} {read : Line → Option Value}
    (blind : ∀ line other : Line, SameLetters line.text.toList other.text.toList →
      line.location = other.location → read line = read other) :
    lines.filterMap read = others.filterMap read := by
  induction variant with
  | nil => rfl
  | cons first _ induction =>
      rw [List.filterMap_cons, List.filterMap_cons, blind _ _ first.1 first.2, induction]

theorem CaseVariant.find_declaration_eq : findDeclaration lines = findDeclaration others := by
  have units : lines.filterMap declaredUnit? = others.filterMap declaredUnit? := by
    apply variant.filter_map_eq
    intro line other same _
    rw [declared_unit?_eq, declared_unit?_eq, unit_content?_same_letters same]
  unfold findDeclaration
  rw [units]

theorem CaseVariant.find_uses_eq (file : Path) : findUses file lines = findUses file others := by
  have edges : lines.filterMap (usedModule? file) = others.filterMap (usedModule? file) := by
    apply variant.filter_map_eq
    intro line other same location
    rw [used_module?_eq, used_module?_eq, use_content?_same_letters same, location]
  unfold findUses
  rw [edges]

end Variants

/-! Names that meet. -/

open FortranDeps.Build (SymbolIndex SkipSet)

theorem unit_name_same_letters {Property Other : Type} {statement : Statement Property}
    {other : Statement Other} (same : SameLetters statement.name other.name) :
    statement.unitName = other.unitName :=
  congrArg String.ofList same.lower_eq

/-- The declaration of a file has the name of every statement in the file that opens a unit. -/
theorem declaration_name {lines : List Line} {path : Path} {declaration : Declaration}
    (declared : (findDeclaration lines).toDeclaration path = .ok declaration)
    {line : Line} (inside : line ∈ lines) {unit : Statement UnitKind}
    (read : unitStatement? line.text.toList = some unit) (named : unit.unitName ≠ "procedure") :
    declaration = ⟨path, unit.property, unit.unitName⟩ := by
  have own : declaredUnit? line = some (unit.property, unit.unitName) := by
    rw [declared_unit?_eq, unitContent?, read]
    exact if_neg named
  have listed := List.mem_filterMap.mpr ⟨line, inside, own⟩
  cases found : findDeclaration lines with
  | one kind name =>
      rw [find_declaration_eq_one.mp found, List.mem_singleton] at listed
      obtain ⟨sameKind, sameName⟩ := Prod.mk.inj listed
      rw [found] at declared
      cases declared
      rw [sameKind, sameName]
  | none =>
      rw [found] at declared
      cases declared
  | several names =>
      rw [found] at declared
      cases declared

theorem lookup_of_insert {index after : SymbolIndex} {declaration : Declaration}
    (added : index.insert declaration = .ok after) :
    after.lookup declaration.name = some declaration.file := by
  unfold SymbolIndex.insert at added
  split at added
  · cases added
  · next free =>
      cases added
      unfold SymbolIndex.get? at free
      simp [SymbolIndex.lookup, SymbolIndex.get?, List.lookup_append, free]

theorem contains_of_names {names : List String} {given name : String} (member : given ∈ names)
    (same : Text.lowerCase given = name) :
    (SkipSet.ofNames names).contains name = true ∧
      (SkipSet.withDefaults names).contains name = true := by
  have lowered : name ∈ names.map Text.lowerCase := List.mem_map.mpr ⟨given, member, same⟩
  unfold SkipSet.contains SkipSet.ofNames SkipSet.withDefaults
  rw [List.contains_iff_mem, List.contains_iff_mem, List.mem_eraseDups, List.mem_eraseDups]
  exact ⟨lowered, List.mem_append_left _ lowered⟩

theorem exists_edge_of_use {lines : List Line} {line : Line} (inside : line ∈ lines)
    {use : Statement Bool} (read : useStatement? line.text.toList = some use) (file : Path) :
    ∃ edge ∈ findUses file lines, edge.name = use.unitName := by
  have used : LineUses line use.unitName use.property := ⟨use, read, rfl, rfl⟩
  obtain ⟨mark, first⟩ := exists_first_mark ⟨line, inside, used⟩
  obtain ⟨edge, member, named, -⟩ := exists_edge first file
  exact ⟨edge, member, named⟩

/-- The case of ASCII letters has no influence on a scan: lists of lines that differ in nothing else
declare the same and use the same modules at the same lines, and the name in each line takes the
same bytes. A use of a module finds the file that declares it, and is covered by a name to be
skipped, in whatever case the two names are written. -/
theorem scanning_ignores_letter_case :
    (∀ (lines others : List Line) (file : Path), CaseVariant lines others →
      findDeclaration lines = findDeclaration others ∧
      findUses file lines = findUses file others ∧
      lines.map (fun line => unitNameSpan line.text) =
        others.map (fun line => unitNameSpan line.text)) ∧
    (∀ (lines others : List Line) (path userPath : Path) (declaration : Declaration)
      (opening user : Line) (unit : Statement UnitKind) (use : Statement Bool),
      (findDeclaration lines).toDeclaration path = .ok declaration →
      opening ∈ lines → unitStatement? opening.text.toList = some unit →
      unit.unitName ≠ "procedure" →
      user ∈ others → useStatement? user.text.toList = some use →
      SameLetters unit.name use.name →
      ∃ edge ∈ findUses userPath others, edge.name = use.unitName ∧
        ∀ index after : SymbolIndex, index.insert declaration = .ok after →
          after.lookup edge.name = some path) ∧
    (∀ (others : List Line) (userPath : Path) (user : Line) (use : Statement Bool)
      (names : List String) (given : String),
      user ∈ others → useStatement? user.text.toList = some use →
      given ∈ names → SameLetters given.toList use.name →
      ∃ edge ∈ findUses userPath others, edge.name = use.unitName ∧
        (SkipSet.ofNames names).contains edge.name = true ∧
        (SkipSet.withDefaults names).contains edge.name = true) := by
  refine ⟨?_, ?_, ?_⟩
  · intro lines others file variant
    refine ⟨variant.find_declaration_eq, variant.find_uses_eq file, ?_⟩
    simp only [← List.filterMap_eq_map]
    apply variant.filter_map_eq
    intro line other same _
    exact congrArg some (unit_name_span_same_letters same)
  · intro lines others path userPath declaration opening user unit use declared inside read named
      used readUse same
    obtain ⟨edge, member, edgeName⟩ := exists_edge_of_use used readUse userPath
    refine ⟨edge, member, edgeName, ?_⟩
    intro index after added
    have own := declaration_name declared inside read named
    have found := lookup_of_insert added
    rw [own] at found
    rw [edgeName, ← unit_name_same_letters same]
    exact found
  · intro others userPath user use names given used readUse member same
    obtain ⟨edge, inside, edgeName⟩ := exists_edge_of_use used readUse userPath
    refine ⟨edge, inside, edgeName, ?_⟩
    rw [edgeName]
    exact contains_of_names member (congrArg String.ofList same.lower_eq)

/-- The name ends in a capital sigma, which is a final one in lower case. -/
def opensGrid : Line := ⟨"MODULE GridΣ", ⟨"a.f90", 1⟩⟩

def usesGrid : Line := ⟨"Use gRIDΣ", ⟨"b.f90", 2⟩⟩

-- The classes of a letter beyond ASCII are read off long tables.
set_option maxRecDepth 20000 in
theorem cases_of_a_name_meet :
    findDeclaration [opensGrid] = findDeclaration [⟨"module GRIDΣ", ⟨"a.f90", 1⟩⟩] ∧
      (∃ edge ∈ findUses ⟨"b.f90"⟩ [usesGrid], edge.name = "gridς" ∧
        (SymbolIndex.mk [("gridς", ⟨⟨"a.f90"⟩, .moduleUnit⟩)]).lookup edge.name =
          some ⟨"a.f90"⟩) ∧
      ∃ edge ∈ findUses ⟨"b.f90"⟩ [usesGrid], edge.name = "gridς" ∧
        (SkipSet.withDefaults ["GRIdΣ"]).contains edge.name = true := by
  have unitRead : unitStatement? opensGrid.text.toList =
      some ⟨.moduleUnit, "MODULE ".toList, "GridΣ".toList, []⟩ := by cbv
  have useRead : useStatement? usesGrid.text.toList =
      some ⟨false, "Use ".toList, "gRIDΣ".toList, []⟩ := by cbv
  have lowered : String.ofList (lower "gRIDΣ".toList) = "gridς" := by decide +kernel
  refine ⟨?_, ?_, ?_⟩
  · apply (scanning_ignores_letter_case.1 _ _ ⟨"a.f90"⟩ _).1
    exact .cons ⟨by decide, rfl⟩ .nil
  · obtain ⟨edge, member, named, meets⟩ := scanning_ignores_letter_case.2.1
      [opensGrid] [usesGrid] ⟨"a.f90"⟩ ⟨"b.f90"⟩ ⟨⟨"a.f90"⟩, .moduleUnit, "gridς"⟩ _ _ _ _
      (by cbv) (List.mem_singleton_self _) unitRead (by decide +kernel)
      (List.mem_singleton_self _) useRead (by decide)
    exact ⟨edge, member, named.trans lowered, meets .empty _ rfl⟩
  · obtain ⟨edge, member, named, -, skipped⟩ := scanning_ignores_letter_case.2.2
      [usesGrid] ⟨"b.f90"⟩ _ _ ["GRIdΣ"] _ (List.mem_singleton_self _) useRead
      (List.mem_singleton_self _) (by decide)
    exact ⟨edge, member, named.trans lowered, skipped⟩

end FortranDeps.Units

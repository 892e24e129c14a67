import FortranDeps.Proofs.Text.Runs
import FortranDeps.Units.Statement

/-!
The grammar of statements about units. Every reader takes exactly the texts of its part of the
grammar, so a line is a use if and only if it can be cut into the parts of one, and the name then
stands where the cut puts it.
-/

namespace FortranDeps.Units

open Text

/-- A letter or underscore and word characters. -/
def IsName : List Char → Prop
  | [] => False
  | c :: rest => isNameStart (folded c) = true ∧ ∀ next ∈ rest, isWordChar next = true

/-! The readers. -/

theorem read_keyword_eq_some {keyword text word rest : List Char} :
    readKeyword keyword text = some (word, rest) ↔
      word.map folded = keyword ∧ text = word ++ rest := by
  simp only [readKeyword]
  constructor
  · intro read
    split at read
    · next spelled =>
        cases read
        exact ⟨spelled, (List.take_append_drop _ _).symm⟩
    · cases read
  · rintro ⟨spelled, rfl⟩
    have size : word.length = keyword.length := by rw [← spelled, List.length_map]
    rw [List.take_left' size, List.drop_left' size]
    exact if_pos spelled

theorem read_blanks_eq_some {text rest : List Char} :
    readBlanks text = some rest ↔
      ∃ blanks, Blanks blanks ∧ blanks ≠ [] ∧ Stops isBlank rest ∧ text = blanks ++ rest := by
  constructor
  · intro read
    cases text with
    | nil => cases read
    | cons c later =>
        simp only [readBlanks] at read
        split at read
        · next blank =>
            cases read
            obtain ⟨lead, blanks, whole⟩ := exists_blanks later
            refine ⟨c :: lead, ?_, List.cons_ne_nil _ _, stops_drop_while isBlank later, ?_⟩
            · exact List.forall_mem_cons.mpr ⟨blank, blanks⟩
            · rw [List.cons_append, ← whole]
        · cases read
  · rintro ⟨blanks, areBlank, nonempty, stops, rfl⟩
    cases blanks with
    | nil => exact absurd rfl nonempty
    | cons c lead =>
        obtain ⟨blank, others⟩ := List.forall_mem_cons.mp areBlank
        have rest : trimStart (lead ++ rest) = rest := drop_while_run others stops
        simp [readBlanks, blank, rest]

theorem read_name_eq_some {text name after : List Char} :
    readName text = some (name, after) ↔
      IsName name ∧ Stops isWordChar after ∧ text = name ++ after := by
  constructor
  · intro read
    cases text with
    | nil => cases read
    | cons c rest =>
        simp only [readName] at read
        split at read
        · next start =>
            cases read
            refine ⟨⟨start, fun next member => List.mem_takeWhile_imp member⟩,
              stops_drop_while isWordChar rest, ?_⟩
            rw [List.cons_append, List.takeWhile_append_dropWhile]
        · cases read
  · rintro ⟨isName, stops, rfl⟩
    cases name with
    | nil => exact isName.elim
    | cons c rest =>
        obtain ⟨start, words⟩ := isName
        simp [readName, start, take_while_run words stops, drop_while_run words stops]

/-! Letters without regard to case. -/

theorem folded_ascii {c : Char} (small : c.toNat < 0x80) : folded c = c.toLower := by
  unfold folded
  rw [if_neg (by omega), if_neg (by omega)]

/-- Beside ASCII only two characters stand for a letter. -/
theorem ascii_of_folded {c : Char} (name : isNameChar (folded c) = true) :
    c.toNat < 0x80 ∨ c.toNat = 0x17F ∨ c.toNat = 0x212A := by
  by_contra beyond
  rw [not_or, not_or] at beyond
  have same : folded c = c := by
    unfold folded
    rw [if_neg beyond.2.1, if_neg beyond.2.2]
    apply dif_neg
    rintro ⟨-, high⟩
    exact beyond.1 (Nat.lt_of_le_of_lt (UInt32.le_iff_toNat_le.mp high) (by decide))
  rw [same] at name
  exact beyond.1 (to_nat_of_is_name_char name)

/-- The letters of keywords, and those that start a name. -/
def nameLetters : List Char :=
  ['a', 'b', 'c', 'd', 'e', 'f', 'g', 'h', 'i', 'j', 'k', 'l', 'm', 'n', 'o', 'p', 'q', 'r', 's',
    't', 'u', 'v', 'w', 'x', 'y', 'z', '_']

/-- The characters whose simple case folding is a letter. -/
def caseForms (letter : Char) : List Char :=
  letter :: letter.toUpper ::
    if letter = 's' then [Char.ofNat 0x17F]
    else if letter = 'k' then [Char.ofNat 0x212A]
    else []

theorem folded_eq_iff {letter : Char} (small : letter ∈ nameLetters) (c : Char) :
    folded c = letter ↔ c ∈ caseForms letter := by
  have ascii : ∀ code : Fin 0x80, nameLetters.all (fun letter =>
      folded (Char.ofNat code) = letter ↔ Char.ofNat code ∈ caseForms letter) = true := by
    decide +kernel
  have special : ∀ code ∈ [0x17F, 0x212A], nameLetters.all (fun letter =>
      folded (Char.ofNat code) = letter ↔ Char.ofNat code ∈ caseForms letter) = true := by
    decide +kernel
  have within (c : Char) (low : c.toNat < 0x80) : folded c = letter ↔ c ∈ caseForms letter := by
    have own := of_decide_eq_true (List.all_eq_true.mp (ascii ⟨c.toNat, low⟩) letter small)
    rwa [Char.ofNat_toNat] at own
  have beside (c : Char) (code : Nat) (member : code ∈ [0x17F, 0x212A]) (same : c.toNat = code) :
      folded c = letter ↔ c ∈ caseForms letter := by
    have own := of_decide_eq_true (List.all_eq_true.mp (special code member) letter small)
    rwa [← same, Char.ofNat_toNat] at own
  have forms : nameLetters.all (fun letter =>
      (caseForms letter).all (fun form => isNameChar (folded form))) = true := by
    decide +kernel
  have names : nameLetters.all isNameChar = true := by decide
  constructor
  · intro same
    have name : isNameChar (folded c) = true := by
      rw [same]
      exact List.all_eq_true.mp names letter small
    rcases ascii_of_folded name with low | long | kelvin
    · exact (within c low).mp same
    · exact (beside c _ (by simp) long).mp same
    · exact (beside c _ (by simp) kelvin).mp same
  · intro member
    have name : isNameChar (folded c) = true :=
      List.all_eq_true.mp (List.all_eq_true.mp forms letter small) c member
    rcases ascii_of_folded name with low | long | kelvin
    · exact (within c low).mpr member
    · exact (beside c _ (by simp) long).mpr member
    · exact (beside c _ (by simp) kelvin).mpr member

theorem is_name_char_of_is_name_start {c : Char} (start : isNameStart c = true) :
    isNameChar c = true := by
  simp only [isNameStart, Bool.or_eq_true] at start
  rcases start with alpha | underscore
  · simp [isNameChar, Char.isAlphanum, alpha]
  · simp [isNameChar, underscore]

theorem is_name_start_folded_iff (c : Char) :
    isNameStart (folded c) = true ↔ ∃ letter ∈ nameLetters, c ∈ caseForms letter := by
  have starts : nameLetters.all isNameStart = true := by decide
  constructor
  · intro start
    have small : folded c ∈ nameLetters := by
      rcases ascii_of_folded (is_name_char_of_is_name_start start) with low | long | kelvin
      · have letters : isNameStart (folded c) = true → folded c ∈ nameLetters :=
          ascii_cases low (by decide +kernel)
        exact letters start
      · have same : folded c = 's' := if_pos long
        rw [same]
        decide
      · have same : folded c = 'k' := by simp [folded, kelvin]
        rw [same]
        decide
    exact ⟨folded c, small, (folded_eq_iff small c).mp rfl⟩
  · rintro ⟨letter, member, form⟩
    rw [(folded_eq_iff member c).mpr form]
    exact List.all_eq_true.mp starts letter member

/-- A character that stands for a letter, digit or underscore is no blank and no punctuation. -/
theorem unmarked_of_folded {c : Char} (name : isNameChar (folded c) = true) :
    isBlank c = false ∧ c ≠ ',' ∧ c ≠ ':' := by
  rcases ascii_of_folded name with small | special
  · have plain : isNameChar (folded c) = true → isBlank c = false ∧ c ≠ ',' ∧ c ≠ ':' :=
      ascii_cases small (by decide)
    exact plain name
  · refine ⟨?_, ?_, ?_⟩
    · rcases special with code | code <;> simp [isBlank, code]
    · rintro rfl
      revert special
      decide
    · rintro rfl
      revert special
      decide

theorem head?_spelled {keyword word : List Char} {c : Char}
    (spelled : word.map folded = c :: keyword) (rest : List Char) :
    (word ++ rest).head?.map folded = some c := by
  cases word with
  | nil => cases spelled
  | cons first others => exact congrArg some (List.cons.inj spelled).1

theorem stops_blank_of_spelled {keyword word : List Char} {c : Char}
    (spelled : word.map folded = c :: keyword) (name : isNameChar c = true) (rest : List Char) :
    Stops isBlank (word ++ rest) := by
  intro next first
  have same := head?_spelled spelled rest
  rw [Option.mem_def.mp first] at same
  rw [← Option.some.inj same] at name
  exact (unmarked_of_folded name).1

theorem IsName.start {name : List Char} (isName : IsName name) (after : List Char) :
    ∃ c rest, name ++ after = c :: rest ∧ isBlank c = false ∧ c ≠ ',' ∧ c ≠ ':' := by
  cases name with
  | nil => exact isName.elim
  | cons c rest =>
      exact ⟨c, rest ++ after, rfl, unmarked_of_folded (is_name_char_of_is_name_start isName.1)⟩

/-! The parts of a use between the keyword and the name. -/

/-- The nature of a module behind a comma, or nothing. -/
inductive Mark : Option (List Char) → List Char → Prop where
  | absent : Mark none []
  | nature {lead gap word : List Char} (leading : Blanks lead) (between : Blanks gap)
      (spelled : word.map folded = "intrinsic".toList ∨ word.map folded = "non_intrinsic".toList) :
      Mark (some word) (lead ++ ',' :: (gap ++ word))

/-- A double colon, or blanks. -/
inductive Separator : List Char → Prop where
  | colons {left right : List Char} (before : Blanks left) (behind : Blanks right) :
      Separator (left ++ ':' :: ':' :: right)
  | blanks {text : List Char} (blank : Blanks text) (nonempty : text ≠ []) : Separator text

theorem mark_of_read_nature {text rest : List Char} {nature : Option (List Char)}
    (read : readNature text = some (nature, rest)) :
    ∃ mark, Mark nature mark ∧ text = mark ++ rest := by
  unfold readNature at read
  split at read
  · next following comma =>
      obtain ⟨lead, leading, whole⟩ := exists_blanks text
      obtain ⟨gap, between, behind⟩ := exists_blanks following
      obtain ⟨⟨word, left⟩, found, same⟩ := Option.bind_eq_some_iff.mp read
      cases same
      rw [comma] at whole
      have spelled : (word.map folded = "intrinsic".toList ∨
          word.map folded = "non_intrinsic".toList) ∧ trimStart following = word ++ rest := by
        cases plain : readKeyword "intrinsic".toList (trimStart following) with
        | some read =>
            rw [plain] at found
            cases found
            obtain ⟨spelled, cut⟩ := read_keyword_eq_some.mp plain
            exact ⟨.inl spelled, cut⟩
        | none =>
            rw [plain] at found
            obtain ⟨spelled, cut⟩ := read_keyword_eq_some.mp found
            exact ⟨.inr spelled, cut⟩
      refine ⟨_, .nature leading between spelled.1, ?_⟩
      rw [spelled.2] at behind
      rw [whole, behind]
      simp
  · cases read
    exact ⟨[], .absent, rfl⟩

theorem read_nature_of_mark {nature : Option (List Char)} {mark rest : List Char}
    (isMark : Mark nature mark) (noComma : (trimStart rest).head? ≠ some ',') :
    readNature (mark ++ rest) = some (nature, rest) := by
  cases isMark with
  | absent =>
      unfold readNature
      split
      · next following comma =>
          rw [List.nil_append] at comma
          rw [comma] at noComma
          exact absurd rfl noComma
      · rfl
  | @nature lead gap word leading between spelled =>
      have shape : lead ++ ',' :: (gap ++ word) ++ rest =
          lead ++ ',' :: (gap ++ (word ++ rest)) := by
        simp
      have comma : trimStart (lead ++ ',' :: (gap ++ word) ++ rest) =
          ',' :: (gap ++ (word ++ rest)) := by
        rw [shape, trim_start_blanks leading]
        rfl
      have stops : Stops isBlank (word ++ rest) := by
        rcases spelled with spelled | spelled
        · exact stops_blank_of_spelled spelled (by decide) rest
        · exact stops_blank_of_spelled spelled (by decide) rest
      have read : trimStart (gap ++ (word ++ rest)) = word ++ rest := by
        rw [trim_start_blanks between, trim_start_eq_self stops]
      have found : (readKeyword "intrinsic".toList (word ++ rest) <|>
          readKeyword "non_intrinsic".toList (word ++ rest)) = some (word, rest) := by
        rcases spelled with spelled | spelled
        · rw [read_keyword_eq_some.mpr ⟨spelled, rfl⟩]
          rfl
        -- The two keywords differ in their first letter.
        · have other : readKeyword "intrinsic".toList (word ++ rest) = none := by
            cases first : readKeyword "intrinsic".toList (word ++ rest) with
            | none => rfl
            | some read =>
                obtain ⟨spelledFirst, cut⟩ := read_keyword_eq_some.mp first
                have begins := head?_spelled spelled rest
                rw [cut, head?_spelled spelledFirst] at begins
                cases begins
          rw [other, read_keyword_eq_some.mpr ⟨spelled, rfl⟩]
          rfl
      unfold readNature
      rw [comma]
      simp only [read, found]
      rfl

theorem separator_of_read_separator {text rest : List Char}
    (read : readSeparator text = some rest) :
    ∃ separator, Separator separator ∧ text = separator ++ rest := by
  unfold readSeparator at read
  split at read
  · next following colons =>
      obtain ⟨lead, leading, whole⟩ := exists_blanks text
      obtain ⟨gap, between, behind⟩ := exists_blanks following
      cases read
      refine ⟨_, .colons leading between, ?_⟩
      rw [whole, colons]
      simp [← behind]
  · obtain ⟨blanks, blank, nonempty, -, rfl⟩ := read_blanks_eq_some.mp read
    exact ⟨blanks, .blanks blank nonempty, rfl⟩

theorem read_separator_of_separator {separator rest : List Char} {c : Char}
    (isSeparator : Separator separator) (noBlank : isBlank c = false) (noColon : c ≠ ':') :
    readSeparator (separator ++ c :: rest) = some (c :: rest) := by
  have stops := stops_cons noBlank rest
  cases isSeparator with
  | @colons left right before behind =>
      have colons : trimStart (left ++ ':' :: ':' :: right ++ c :: rest) =
          ':' :: ':' :: (right ++ c :: rest) := by
        rw [List.append_assoc, trim_start_blanks before]
        rfl
      unfold readSeparator
      rw [colons]
      show some (trimStart (right ++ c :: rest)) = _
      rw [trim_start_blanks behind, trim_start_eq_self stops]
  | blanks blank nonempty =>
      have name : trimStart (separator ++ c :: rest) = c :: rest := by
        rw [trim_start_blanks blank, trim_start_eq_self stops]
      unfold readSeparator
      rw [name]
      split
      · next following colons => exact absurd (List.cons.inj colons).1 noColon
      · exact read_blanks_eq_some.mpr ⟨separator, blank, nonempty, stops, rfl⟩

theorem head?_separator {separator rest : List Char} {c : Char} (isSeparator : Separator separator)
    (noBlank : isBlank c = false) (noComma : c ≠ ',') :
    (trimStart (separator ++ c :: rest)).head? ≠ some ',' := by
  cases isSeparator with
  | colons before behind =>
      rw [List.append_assoc, trim_start_blanks before]
      show some ':' ≠ some ','
      decide
  | blanks blank nonempty =>
      rw [trim_start_blanks blank, trim_start_eq_self (stops_cons noBlank rest)]
      simpa using noComma

/-! Whole lines. -/

theorem Statement.of_end_eq {Property : Type} (property : Property)
    (before name after : List Char) :
    Statement.ofEnd (before ++ (name ++ after)) property name after =
      ⟨property, before, name, after⟩ := by
  have size : (before ++ (name ++ after)).length - (name.length + after.length) =
      before.length := by
    simp only [List.length_append]
    omega
  unfold ofEnd
  rw [size, List.take_left' rfl]

/-- A line that is cut into the parts of a use. -/
inductive UseLine : List Char → Statement Bool → Prop where
  | cut {lead keyword mark separator name after : List Char} {nature : Option (List Char)}
      (leading : Blanks lead) (spelled : keyword.map folded = "use".toList)
      (isMark : Mark nature mark) (isSeparator : Separator separator) (isName : IsName name)
      (stops : Stops isWordChar after) :
      UseLine ((lead ++ (keyword ++ (mark ++ separator))) ++ (name ++ after))
        ⟨nature.any fun word => word.map Char.toLower == "intrinsic".toList,
          lead ++ (keyword ++ (mark ++ separator)), name, after⟩

/-- A line that is cut into the parts of a statement that opens a unit. -/
inductive UnitLine : List Char → Statement UnitKind → Prop where
  | cut {lead keyword gap name after : List Char} {kind : UnitKind}
      (leading : Blanks lead) (spelled : keyword.map folded = kind.name.toList)
      (between : Blanks gap) (nonempty : gap ≠ []) (isName : IsName name)
      (stops : Stops isWordChar after) (ends : endsStatement after = true) :
      UnitLine ((lead ++ (keyword ++ gap)) ++ (name ++ after))
        ⟨kind, lead ++ (keyword ++ gap), name, after⟩

theorem UseLine.whole {line : List Char} {statement : Statement Bool}
    (isUse : UseLine line statement) :
    line = statement.before ++ (statement.name ++ statement.after) := by
  cases isUse
  rfl

theorem UnitLine.whole {line : List Char} {statement : Statement UnitKind}
    (isUnit : UnitLine line statement) :
    line = statement.before ++ (statement.name ++ statement.after) := by
  cases isUnit
  rfl

theorem UseLine.stops {line : List Char} {statement : Statement Bool}
    (isUse : UseLine line statement) : Stops isWordChar statement.after := by
  cases isUse
  assumption

theorem UnitLine.ends {line : List Char} {statement : Statement UnitKind}
    (isUnit : UnitLine line statement) : endsStatement statement.after = true := by
  cases isUnit
  assumption

theorem trim_start_spelled {lead keyword word rest : List Char} {c : Char} (leading : Blanks lead)
    (spelled : word.map folded = c :: keyword) (letter : isNameChar c = true) :
    trimStart (lead ++ (word ++ rest)) = word ++ rest := by
  rw [trim_start_blanks leading, trim_start_eq_self (stops_blank_of_spelled spelled letter rest)]

/-- The keywords of the two statements differ in their first letter. -/
theorem UseLine.not_unit_line {line : List Char} {statement : Statement Bool}
    (isUse : UseLine line statement) (other : Statement UnitKind) : ¬ UnitLine line other := by
  have begins : (trimStart line).head?.map folded = some 'u' := by
    cases isUse with
    | @cut lead keyword mark separator name after nature leading spelled =>
        rw [List.append_assoc, List.append_assoc, trim_start_spelled leading spelled (by decide)]
        exact head?_spelled spelled _
  intro isUnit
  have otherwise : (trimStart line).head?.map folded = some 'm' ∨
      (trimStart line).head?.map folded = some 'p' := by
    cases isUnit with
    | @cut lead keyword gap name after kind leading spelled =>
        rw [List.append_assoc, List.append_assoc]
        cases kind with
        | moduleUnit =>
            rw [trim_start_spelled leading spelled (by decide)]
            exact .inl (head?_spelled spelled _)
        | mainProgram =>
            rw [trim_start_spelled leading spelled (by decide)]
            exact .inr (head?_spelled spelled _)
  rw [begins] at otherwise
  revert otherwise
  decide

/-- A use does not depend on what follows the name. -/
theorem UseLine.followed_by {line : List Char} {statement : Statement Bool}
    (isUse : UseLine line statement) {rest : List Char} (stops : Stops isWordChar rest) :
    UseLine (statement.before ++ (statement.name ++ rest)) { statement with after := rest } := by
  cases isUse with
  | cut leading spelled isMark isSeparator isName =>
      exact .cut leading spelled isMark isSeparator isName stops

theorem use_statement?_eq_some {line : List Char} {statement : Statement Bool} :
    useStatement? line = some statement ↔ UseLine line statement := by
  constructor
  · intro read
    unfold useStatement? at read
    obtain ⟨⟨keyword, behind⟩, keywordRead, read⟩ := Option.bind_eq_some_iff.mp read
    obtain ⟨⟨nature, unmarked⟩, natureRead, read⟩ := Option.bind_eq_some_iff.mp read
    obtain ⟨named, separatorRead, read⟩ := Option.bind_eq_some_iff.mp read
    obtain ⟨⟨name, after⟩, nameRead, same⟩ := Option.bind_eq_some_iff.mp read
    obtain ⟨lead, leading, whole⟩ := exists_blanks line
    obtain ⟨spelled, cut⟩ := read_keyword_eq_some.mp keywordRead
    obtain ⟨mark, isMark, rfl⟩ := mark_of_read_nature natureRead
    obtain ⟨separator, isSeparator, rfl⟩ := separator_of_read_separator separatorRead
    obtain ⟨isName, stops, rfl⟩ := read_name_eq_some.mp nameRead
    have parts : line = (lead ++ (keyword ++ (mark ++ separator))) ++ (name ++ after) := by
      rw [whole, cut]
      simp
    rw [parts] at same ⊢
    dsimp only at same
    rw [Statement.of_end_eq] at same
    cases same
    exact .cut leading spelled isMark isSeparator isName stops
  · intro parts
    cases parts with
    | @cut lead keyword mark separator name after nature leading spelled isMark isSeparator isName
        stops =>
        obtain ⟨c, rest, named, noBlank, noComma, noColon⟩ := isName.start after
        have opening : trimStart (lead ++ (keyword ++ (mark ++ separator)) ++ (name ++ after)) =
            keyword ++ (mark ++ (separator ++ (name ++ after))) := by
          have stopsBlank := stops_blank_of_spelled spelled (by decide)
            (mark ++ (separator ++ (name ++ after)))
          simp only [List.append_assoc]
          rw [trim_start_blanks leading, trim_start_eq_self stopsBlank]
        have keywordRead := read_keyword_eq_some.mpr
          ⟨spelled, (rfl : keyword ++ (mark ++ (separator ++ (name ++ after))) = _)⟩
        have nameRead := read_name_eq_some.mpr ⟨isName, stops, (rfl : name ++ after = _)⟩
        have separatorRead : readSeparator (separator ++ (name ++ after)) =
            some (name ++ after) := by
          rw [named]
          exact read_separator_of_separator isSeparator noBlank noColon
        have natureRead : readNature (mark ++ (separator ++ (name ++ after))) =
            some (nature, separator ++ (name ++ after)) := by
          apply read_nature_of_mark isMark
          rw [named]
          exact head?_separator isSeparator noBlank noComma
        unfold useStatement?
        rw [opening, keywordRead]
        simp only [Option.bind_eq_bind, Option.bind_some, natureRead, separatorRead, nameRead,
          Statement.of_end_eq]
        rfl

theorem unit_line_of_unit_statement? {line : List Char} {statement : Statement UnitKind}
    (read : unitStatement? line = some statement) : UnitLine line statement := by
  unfold unitStatement? at read
  obtain ⟨⟨kind, behind⟩, kindRead, read⟩ := Option.bind_eq_some_iff.mp read
  obtain ⟨named, gapRead, read⟩ := Option.bind_eq_some_iff.mp read
  obtain ⟨⟨name, after⟩, nameRead, same⟩ := Option.bind_eq_some_iff.mp read
  obtain ⟨lead, leading, whole⟩ := exists_blanks line
  obtain ⟨keyword, spelled, cut⟩ : ∃ keyword, keyword.map folded = kind.name.toList ∧
      trimStart line = keyword ++ behind := by
    cases plain : readKeyword "module".toList (trimStart line) with
    | some found =>
        rw [plain] at kindRead
        cases kindRead
        obtain ⟨spelled, cut⟩ := read_keyword_eq_some.mp plain
        exact ⟨_, spelled, cut⟩
    | none =>
        rw [plain] at kindRead
        obtain ⟨found, programRead, same⟩ := Option.map_eq_some_iff.mp kindRead
        cases same
        obtain ⟨spelled, cut⟩ := read_keyword_eq_some.mp programRead
        exact ⟨_, spelled, cut⟩
  obtain ⟨gap, between, nonempty, -, rfl⟩ := read_blanks_eq_some.mp gapRead
  obtain ⟨isName, stops, rfl⟩ := read_name_eq_some.mp nameRead
  have parts : line = (lead ++ (keyword ++ gap)) ++ (name ++ after) := by
    rw [whole, cut]
    simp
  dsimp only at same
  split at same
  · next ends =>
      rw [parts] at same ⊢
      rw [Statement.of_end_eq] at same
      cases same
      exact .cut leading spelled between nonempty isName stops ends
  · cases same

/-- The two keywords differ in their first letter. -/
theorem read_kind {keyword rest : List Char} {kind : UnitKind}
    (spelled : keyword.map folded = kind.name.toList) :
    (((readKeyword "module".toList (keyword ++ rest)).map fun found =>
        (UnitKind.moduleUnit, found.2)) <|>
      ((readKeyword "program".toList (keyword ++ rest)).map fun found =>
        (UnitKind.mainProgram, found.2))) = some (kind, rest) := by
  cases kind with
  | moduleUnit =>
      have read := read_keyword_eq_some.mpr ⟨spelled, (rfl : keyword ++ rest = _)⟩
      change readKeyword "module".toList (keyword ++ rest) = _ at read
      rw [read]
      rfl
  | mainProgram =>
      have read := read_keyword_eq_some.mpr ⟨spelled, (rfl : keyword ++ rest = _)⟩
      change readKeyword "program".toList (keyword ++ rest) = _ at read
      have other : readKeyword "module".toList (keyword ++ rest) = none := by
        cases first : readKeyword "module".toList (keyword ++ rest) with
        | none => rfl
        | some found =>
            obtain ⟨spelledFirst, cut⟩ := read_keyword_eq_some.mp first
            have begins := head?_spelled spelled rest
            rw [cut, head?_spelled spelledFirst] at begins
            cases begins
      rw [other, read]
      rfl

theorem stops_blank_of_kind {keyword : List Char} {kind : UnitKind}
    (spelled : keyword.map folded = kind.name.toList) (rest : List Char) :
    Stops isBlank (keyword ++ rest) := by
  cases kind with
  | moduleUnit => exact stops_blank_of_spelled spelled (by decide) rest
  | mainProgram => exact stops_blank_of_spelled spelled (by decide) rest

theorem unit_statement?_eq_some {line : List Char} {statement : Statement UnitKind} :
    unitStatement? line = some statement ↔ UnitLine line statement := by
  constructor
  · exact unit_line_of_unit_statement?
  · intro parts
    cases parts with
    | @cut lead keyword gap name after kind leading spelled between nonempty isName stops ends =>
        obtain ⟨c, rest, named, noBlank, -, -⟩ := isName.start after
        have opening : trimStart (lead ++ (keyword ++ gap) ++ (name ++ after)) =
            keyword ++ (gap ++ (name ++ after)) := by
          simp only [List.append_assoc]
          rw [trim_start_blanks leading, trim_start_eq_self (stops_blank_of_kind spelled _)]
        have gapStops : Stops isBlank (name ++ after) := by
          rw [named]
          exact stops_cons noBlank rest
        have gapRead := read_blanks_eq_some.mpr
          ⟨gap, between, nonempty, gapStops, (rfl : gap ++ (name ++ after) = _)⟩
        have nameRead := read_name_eq_some.mpr ⟨isName, stops, (rfl : name ++ after = _)⟩
        unfold unitStatement?
        simp only [opening]
        rw [read_kind spelled]
        simp only [Option.bind_eq_bind, Option.bind_some, gapRead, nameRead, ends,
          Statement.of_end_eq, if_true]
        rfl

/-- The bytes of a name are those of the name in one of the two statements. -/
theorem unit_name_span_eq_some {line : String} {span : Preprocess.Span} :
    unitNameSpan line = some span ↔
      (∃ statement, UseLine line.toList statement ∧ statement.nameSpan = span) ∨
        ∃ statement, UnitLine line.toList statement ∧ statement.nameSpan = span := by
  unfold unitNameSpan
  constructor
  · intro found
    cases use : useStatement? line.toList with
    | some statement =>
        rw [use] at found
        exact .inl ⟨statement, use_statement?_eq_some.mp use, Option.some.inj found⟩
    | none =>
        rw [use] at found
        obtain ⟨statement, unit, same⟩ := Option.map_eq_some_iff.mp found
        exact .inr ⟨statement, unit_statement?_eq_some.mp unit, same⟩
  · rintro (⟨statement, isUse, rfl⟩ | ⟨statement, isUnit, rfl⟩)
    · rw [use_statement?_eq_some.mpr isUse]
      rfl
    · have noUse : useStatement? line.toList = none := by
        cases use : useStatement? line.toList with
        | none => rfl
        | some other => exact absurd isUnit ((use_statement?_eq_some.mp use).not_unit_line _)
      rw [noUse, unit_statement?_eq_some.mpr isUnit]
      rfl

end FortranDeps.Units

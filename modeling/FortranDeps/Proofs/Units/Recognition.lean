import FortranDeps.Proofs.Build.UseAccounting
import FortranDeps.Proofs.Text.Pattern
import FortranDeps.Proofs.Units.Rescan

/-!
The two statements as patterns. Both patterns have optional parts, choices and greedy blanks, and
still a line can be cut into the parts of a statement in at most one way, because the character
behind each part fits no further into it. So the preferred way through a pattern is that one cut,
and what the scan reads from a line is what the pattern finds in it.
-/

namespace FortranDeps.Units

open Text

/-! The grammar. -/

/-- A line that is cut into the parts of a use, with the nature as it is written. -/
inductive UseCut : List Char → Statement (Option (List Char)) → Prop where
  | cut {lead keyword mark separator name after : List Char} {nature : Option (List Char)}
      (leading : Blanks lead) (spelled : keyword.map folded = "use".toList)
      (isMark : Mark nature mark) (isSeparator : Separator separator) (isName : IsName name)
      (stops : Stops isWordChar after) :
      UseCut ((lead ++ (keyword ++ (mark ++ separator))) ++ (name ++ after))
        ⟨nature, lead ++ (keyword ++ (mark ++ separator)), name, after⟩

/-- A comment on one line, or nothing. -/
inductive Comment : List Char → Prop where
  | absent : Comment []
  | text {text : List Char} (single : '\n' ∉ text) : Comment ('!' :: text)

/-- Blanks and at most a comment. -/
inductive Tail : List Char → Prop where
  | cut {lead comment : List Char} (leading : Blanks lead) (isComment : Comment comment) :
      Tail (lead ++ comment)

/-- A line that is cut into the parts of a statement that opens a unit. -/
inductive UnitCut : List Char → Statement UnitKind → Prop where
  | cut {lead keyword gap name after : List Char} {kind : UnitKind}
      (leading : Blanks lead) (spelled : keyword.map folded = kind.name.toList)
      (between : Blanks gap) (nonempty : gap ≠ []) (isName : IsName name) (tail : Tail after) :
      UnitCut ((lead ++ (keyword ++ gap)) ++ (name ++ after))
        ⟨kind, lead ++ (keyword ++ gap), name, after⟩

/-- Whether a nature is the plain keyword, in any case of its letters. -/
def isIntrinsic (nature : Option (List Char)) : Bool :=
  nature.any fun word => word.map Char.toLower == "intrinsic".toList

theorem use_line_iff {line before name after : List Char} {intrinsic : Bool} :
    UseLine line ⟨intrinsic, before, name, after⟩ ↔
      ∃ nature, UseCut line ⟨nature, before, name, after⟩ ∧ isIntrinsic nature = intrinsic := by
  constructor
  · intro isUse
    cases isUse with
    | cut leading spelled isMark isSeparator isName stops =>
        exact ⟨_, .cut leading spelled isMark isSeparator isName stops, rfl⟩
  · rintro ⟨nature, isUse, rfl⟩
    cases isUse with
    | cut leading spelled isMark isSeparator isName stops =>
        exact .cut leading spelled isMark isSeparator isName stops

theorem Comment.stops {comment : List Char} (isComment : Comment comment)
    {isMember : Char → Bool} (noMark : isMember '!' = false) : Stops isMember comment := by
  cases isComment with
  | absent => exact fun _ first => nomatch first
  | text => exact stops_cons noMark _

theorem ends_statement_iff {text : List Char} : endsStatement text = true ↔ Tail text := by
  constructor
  · intro ends
    obtain ⟨lead, leading, whole⟩ := exists_blanks text
    rw [whole]
    apply Tail.cut leading
    unfold endsStatement at ends
    split at ends
    · next none =>
        rw [none]
        exact .absent
    · next c comment start =>
        rw [Bool.and_eq_true, beq_iff_eq, Bool.not_eq_true'] at ends
        obtain ⟨rfl, single⟩ := ends
        rw [start]
        apply Comment.text
        rwa [← List.contains_iff_mem, Bool.not_eq_true]
  · intro tail
    cases tail with
    | @cut lead comment leading isComment =>
        have start : trimStart (lead ++ comment) = comment := by
          rw [trim_start_blanks leading, trim_start_eq_self (isComment.stops (by decide))]
        unfold endsStatement
        rw [start]
        cases isComment with
        | absent => rfl
        | text single => simpa using single

/-- The codes of the characters that are white space. -/
def blankCodes : List Nat :=
  List.range' 0x09 5 ++ List.range' 0x2000 11 ++
    [0x20, 0x85, 0xA0, 0x1680, 0x2028, 0x2029, 0x202F, 0x205F, 0x3000]

theorem mem_blank_codes {c : Char} (blank : isBlank c = true) : c.toNat ∈ blankCodes := by
  simp only [isBlank, Bool.or_eq_true, Bool.and_eq_true, decide_eq_true_eq, beq_iff_eq] at blank
  simp only [blankCodes, List.mem_append, List.mem_range'_1, List.mem_cons, List.not_mem_nil,
    or_false]
  omega

theorem is_word_char_of_is_blank {c : Char} (blank : isBlank c = true) : isWordChar c = false := by
  have codes : ∀ code ∈ blankCodes, isWordChar (Char.ofNat code) = false := by decide +kernel
  have own := codes _ (mem_blank_codes blank)
  rwa [Char.ofNat_toNat] at own

theorem Tail.stops {text : List Char} (tail : Tail text) : Stops isWordChar text := by
  cases tail with
  | @cut lead comment leading isComment =>
      have blanks : Stops isWordChar lead := by
        intro c first
        exact is_word_char_of_is_blank (leading c (List.mem_of_head? first))
      exact blanks.append fun _ => isComment.stops (by decide)

theorem unit_line_iff {line : List Char} {statement : Statement UnitKind} :
    UnitLine line statement ↔ UnitCut line statement := by
  constructor
  · intro isUnit
    cases isUnit with
    | cut leading spelled between nonempty isName stops ends =>
        exact .cut leading spelled between nonempty isName (ends_statement_iff.mp ends)
  · intro isUnit
    cases isUnit with
    | cut leading spelled between nonempty isName tail =>
        exact .cut leading spelled between nonempty isName tail.stops (ends_statement_iff.mpr tail)

/-! The patterns. -/

/-- A keyword in any case. -/
def wordPattern (keyword : List Char) : Pattern :=
  .all (keyword.map fun letter => .one fun c => folded c == letter)

def naturePattern : Pattern :=
  .optional (.all [.run isBlank, .one (· == ','), .run isBlank,
    .group 1 (.either (wordPattern "intrinsic".toList) (wordPattern "non_intrinsic".toList))])

def gapPattern : Pattern := .all [.one isBlank, .run isBlank]

def separatorPattern : Pattern :=
  .either (.all [.run isBlank, .one (· == ':'), .one (· == ':'), .run isBlank]) gapPattern

def namePattern : Pattern := .all [.one fun c => isNameStart (folded c), .run isWordChar]

def commentPattern : Pattern := .optional (.all [.one (· == '!'), .run (· != '\n')])

def usePattern : Pattern :=
  .both .opening (.all [.run isBlank, wordPattern "use".toList, naturePattern, separatorPattern,
    .group 2 namePattern])

def unitPattern : Pattern :=
  .both .opening (.all [.run isBlank,
    .group 1 (.either (wordPattern "module".toList) (wordPattern "program".toList)),
    gapPattern, .group 2 namePattern, .run isBlank, commentPattern, .ending])

/-! What the patterns prefer. -/

section Preferred

open Pattern

variable {passed rest : List Char} {groups : List (Nat × List Char × List Char)}

theorem prefers_word_pattern {keyword word : List Char} (spelled : word.map folded = keyword) :
    (wordPattern keyword).Prefers ⟨passed, word ++ rest, groups⟩
      ⟨passed ++ word, rest, groups⟩ := by
  induction word generalizing passed keyword with
  | nil =>
      subst spelled
      rw [List.append_nil]
      exact prefers_nothing
  | cons c word induction =>
      subst spelled
      have start : (one fun next => folded next == folded c).Prefers
          ⟨passed, c :: (word ++ rest), groups⟩ ⟨passed ++ [c], word ++ rest, groups⟩ :=
        prefers_one (beq_self_eq_true (folded c))
      have later := @induction (passed ++ [c]) _ rfl
      rw [List.append_assoc] at later
      exact start.both later

theorem prefers_name_pattern {name : List Char} (isName : IsName name)
    (stops : Stops isWordChar rest) :
    namePattern.Prefers ⟨passed, name ++ rest, groups⟩ ⟨passed ++ name, rest, groups⟩ := by
  cases name with
  | nil => exact isName.elim
  | cons c letters =>
      obtain ⟨start, words⟩ := isName
      have first : (one fun c => isNameStart (folded c)).Prefers
          ⟨passed, c :: (letters ++ rest), groups⟩ ⟨passed ++ [c], letters ++ rest, groups⟩ :=
        prefers_one start
      have others : (run isWordChar).Prefers ⟨passed ++ [c], letters ++ rest, groups⟩
          ⟨passed ++ [c] ++ letters, rest, groups⟩ := prefers_run words stops
      rw [List.append_assoc] at others
      exact first.both (others.both prefers_nothing)

/-- Two keywords that differ in their first letter do not start the same text. -/
theorem never_word_pattern {keyword other word : List Char} {c d : Char}
    (spelled : word.map folded = c :: keyword) (differ : c ≠ d) :
    (wordPattern (d :: other)).ways ⟨passed, word ++ rest, groups⟩ = [] := by
  apply ways_eq_nil
  rintro behind ⟨middle, ⟨first, same, whole⟩, -⟩
  have begins := head?_spelled spelled rest
  rw [show word ++ rest = first :: middle from whole] at begins
  apply differ
  rw [← beq_iff_eq.mp same]
  exact (Option.some.inj begins).symm

/-- Blanks and a mark are not found where no mark follows the blanks. -/
theorem never_after_blanks {mark : Char} (noBlank : isBlank mark = false)
    (absent : (trimStart rest).head? ≠ some mark) (later : List Pattern) :
    (all (.run isBlank :: .one (· == mark) :: later)).ways ⟨passed, rest, groups⟩ = [] := by
  apply ways_eq_nil
  rintro behind ⟨_, ⟨taken, blanks, whole⟩, middle, ⟨c, same, rfl⟩, -⟩
  obtain rfl := beq_iff_eq.mp same
  apply absent
  rw [show rest = taken ++ c :: middle from whole, trim_start_blanks blanks,
    trim_start_eq_self (stops_cons noBlank middle)]
  rfl

theorem prefers_nature_pattern {nature : Option (List Char)} {mark : List Char}
    (isMark : Mark nature mark) (noComma : (trimStart rest).head? ≠ some ',') :
    ∃ before, naturePattern.Prefers ⟨passed, mark ++ rest, groups⟩
      ⟨passed ++ mark, rest, groups ++ (nature.map fun word => (1, before, word)).toList⟩ := by
  cases isMark with
  | absent =>
      refine ⟨[], ?_⟩
      rw [List.append_nil, Option.map_none, Option.toList_none, List.append_nil]
      exact Prefers.right (never_after_blanks (by decide) noComma _) prefers_nothing
  | @nature lead gap word leading between spelled =>
      refine ⟨passed ++ lead ++ [','] ++ gap, ?_⟩
      have letters : Stops isBlank (word ++ rest) := by
        rcases spelled with spelled | spelled
        · exact stops_blank_of_spelled spelled (by decide) rest
        · exact stops_blank_of_spelled spelled (by decide) rest
      have words (passed : List Char) :
          (either (wordPattern "intrinsic".toList) (wordPattern "non_intrinsic".toList)).Prefers
            ⟨passed, word ++ rest, groups⟩ ⟨passed ++ word, rest, groups⟩ := by
        rcases spelled with spelled | spelled
        · exact (prefers_word_pattern spelled).left
        · exact Prefers.right (never_word_pattern spelled (by decide))
            (prefers_word_pattern spelled)
      have blanks : (run isBlank).Prefers ⟨passed, lead ++ ',' :: (gap ++ (word ++ rest)), groups⟩
          ⟨passed ++ lead, ',' :: (gap ++ (word ++ rest)), groups⟩ :=
        prefers_run leading (stops_cons (by decide) _)
      have comma : (one (· == ',')).Prefers
          ⟨passed ++ lead, ',' :: (gap ++ (word ++ rest)), groups⟩
          ⟨passed ++ lead ++ [','], gap ++ (word ++ rest), groups⟩ := prefers_one rfl
      have gapBlanks : (run isBlank).Prefers
          ⟨passed ++ lead ++ [','], gap ++ (word ++ rest), groups⟩
          ⟨passed ++ lead ++ [','] ++ gap, word ++ rest, groups⟩ := prefers_run between letters
      have marked := blanks.both (comma.both (gapBlanks.both
        (((words _).group 1).both prefers_nothing)))
      have optional : naturePattern.Prefers _ _ := marked.left
      simpa using optional

theorem prefers_gap_pattern {gap : List Char} (blank : Blanks gap) (nonempty : gap ≠ [])
    (stops : Stops isBlank rest) :
    gapPattern.Prefers ⟨passed, gap ++ rest, groups⟩ ⟨passed ++ gap, rest, groups⟩ := by
  cases gap with
  | nil => exact absurd rfl nonempty
  | cons c others =>
      obtain ⟨first, more⟩ := List.forall_mem_cons.mp blank
      have start : (one isBlank).Prefers ⟨passed, c :: (others ++ rest), groups⟩
          ⟨passed ++ [c], others ++ rest, groups⟩ := prefers_one first
      have run : (run isBlank).Prefers ⟨passed ++ [c], others ++ rest, groups⟩
          ⟨passed ++ [c] ++ others, rest, groups⟩ := prefers_run more stops
      rw [List.append_assoc] at run
      exact start.both (run.both prefers_nothing)

theorem prefers_separator_pattern {separator : List Char} {c : Char}
    (isSeparator : Separator separator) (noBlank : isBlank c = false) (noColon : c ≠ ':') :
    separatorPattern.Prefers ⟨passed, separator ++ c :: rest, groups⟩
      ⟨passed ++ separator, c :: rest, groups⟩ := by
  have stops := stops_cons noBlank rest
  cases isSeparator with
  | @colons left right before behind =>
      have blanks : (run isBlank).Prefers
          ⟨passed, left ++ ':' :: ':' :: (right ++ c :: rest), groups⟩
          ⟨passed ++ left, ':' :: ':' :: (right ++ c :: rest), groups⟩ :=
        prefers_run before (stops_cons (by decide) _)
      have colon (passed later : List Char) : (one (· == ':')).Prefers
          ⟨passed, ':' :: later, groups⟩ ⟨passed ++ [':'], later, groups⟩ := prefers_one rfl
      have after : (run isBlank).Prefers
          ⟨passed ++ left ++ [':'] ++ [':'], right ++ c :: rest, groups⟩
          ⟨passed ++ left ++ [':'] ++ [':'] ++ right, c :: rest, groups⟩ := prefers_run behind stops
      have colons := blanks.both ((colon _ _).both ((colon _ _).both (after.both prefers_nothing)))
      have either : separatorPattern.Prefers _ _ := colons.left
      simpa using either
  | blanks blank nonempty =>
      have never : (trimStart (separator ++ c :: rest)).head? ≠ some ':' := by
        rw [trim_start_blanks blank, trim_start_eq_self stops]
        simpa using noColon
      exact Prefers.right (never_after_blanks (by decide) never _)
        (prefers_gap_pattern blank nonempty stops)

theorem prefers_comment_pattern {comment : List Char} (isComment : Comment comment) :
    commentPattern.Prefers ⟨passed, comment, groups⟩ ⟨passed ++ comment, [], groups⟩ := by
  cases isComment with
  | absent =>
      have never : (all [one (· == '!'), run (· != '\n')]).ways ⟨passed, [], groups⟩ = [] := rfl
      rw [List.append_nil]
      exact Prefers.right never prefers_nothing
  | @text text single =>
      have mark : (one (· == '!')).Prefers ⟨passed, '!' :: text, groups⟩
          ⟨passed ++ ['!'], text, groups⟩ := prefers_one rfl
      have noFeed : ∀ c ∈ text, (c != '\n') = true := by
        intro c member
        apply bne_iff_ne.mpr
        rintro rfl
        exact single member
      have rest : (run (· != '\n')).Prefers ⟨passed ++ ['!'], text ++ [], groups⟩
          ⟨passed ++ ['!'] ++ text, [], groups⟩ :=
        prefers_run noFeed fun _ first => nomatch first
      rw [List.append_nil, List.append_assoc] at rest
      exact (mark.both (rest.both prefers_nothing)).left

theorem prefers_kind_pattern {kind : UnitKind} {keyword : List Char}
    (spelled : keyword.map folded = kind.name.toList) :
    (either (wordPattern "module".toList) (wordPattern "program".toList)).Prefers
      ⟨passed, keyword ++ rest, groups⟩ ⟨passed ++ keyword, rest, groups⟩ := by
  cases kind with
  | moduleUnit => exact (prefers_word_pattern spelled).left
  | mainProgram =>
      have never : (wordPattern "module".toList).ways ⟨passed, keyword ++ rest, groups⟩ = [] :=
        never_word_pattern spelled (by decide)
      exact Prefers.right never (prefers_word_pattern spelled)

end Preferred

/-! Whole lines. -/

/-- What a passage says about a use. -/
def UseCaptures (passage : Passage) (nature : Option (List Char)) (before name : List Char) :
    Prop :=
  (passage.group? 1).map Prod.snd = nature ∧ passage.group? 2 = some (before, name)

/-- What a passage says about a unit: a keyword that is not the one of modules is that of
programs. -/
def UnitCaptures (passage : Passage) (kind : UnitKind) (before name : List Char) : Prop :=
  (∃ lead keyword, passage.group? 1 = some (lead, keyword) ∧
    kind = if keyword.map Char.toLower = "module".toList then .moduleUnit else .mainProgram) ∧
  passage.group? 2 = some (before, name)

/-- Without an s or a k in the keyword its letters are those of ASCII. -/
theorem map_to_lower_of_spelled {keyword word : List Char} (spelled : word.map folded = keyword)
    (plain : 's' ∉ keyword ∧ 'k' ∉ keyword) : word.map Char.toLower = keyword := by
  rw [← spelled]
  apply List.map_congr_left
  intro c member
  have inside : folded c ∈ keyword := spelled ▸ List.mem_map_of_mem member
  unfold folded at inside ⊢
  split at inside
  · exact absurd inside plain.1
  · next notLong =>
      split at inside
      · exact absurd inside plain.2
      · next notKelvin => rw [if_neg notLong, if_neg notKelvin]

theorem kind_of_keyword {kind : UnitKind} {keyword : List Char}
    (spelled : keyword.map folded = kind.name.toList) :
    kind = if keyword.map Char.toLower = "module".toList then .moduleUnit else .mainProgram := by
  cases kind with
  | moduleUnit =>
      have lowered : keyword.map Char.toLower = "module".toList :=
        map_to_lower_of_spelled spelled (by decide)
      rw [if_pos lowered]
  | mainProgram =>
      have lowered : keyword.map Char.toLower = "program".toList :=
        map_to_lower_of_spelled spelled (by decide)
      rw [lowered]
      rfl

theorem UseCut.first? {line : List Char} {statement : Statement (Option (List Char))}
    (isUse : UseCut line statement) :
    ∃ passage, usePattern.first? line = some passage ∧
      UseCaptures passage statement.property statement.before statement.name := by
  cases isUse with
  | @cut lead keyword mark separator name after nature leading spelled isMark isSeparator isName
      stops =>
      obtain ⟨c, rest, named, noBlank, noComma, noColon⟩ := isName.start after
      have blanks : (Pattern.run isBlank).Prefers
          ⟨[], lead ++ (keyword ++ (mark ++ (separator ++ (name ++ after)))), []⟩
          ⟨lead, keyword ++ (mark ++ (separator ++ (name ++ after))), []⟩ :=
        Pattern.prefers_run leading (stops_blank_of_spelled spelled (by decide) _)
      have word : (wordPattern "use".toList).Prefers
          ⟨lead, keyword ++ (mark ++ (separator ++ (name ++ after))), []⟩
          ⟨lead ++ keyword, mark ++ (separator ++ (name ++ after)), []⟩ :=
        prefers_word_pattern spelled
      have unmarked : (trimStart (separator ++ (name ++ after))).head? ≠ some ',' := by
        rw [named]
        exact head?_separator isSeparator noBlank noComma
      obtain ⟨natureBefore, marked⟩ :=
        @prefers_nature_pattern (lead ++ keyword) _ [] _ _ isMark unmarked
      have separated := @prefers_separator_pattern (lead ++ keyword ++ mark) rest
        ([] ++ (nature.map fun word => (1, natureBefore, word)).toList) _ _ isSeparator noBlank
        noColon
      rw [← named] at separated
      have whole := blanks.both (word.both (marked.both (separated.both
        (((prefers_name_pattern isName stops).group 2).both Pattern.prefers_nothing))))
      have found := (Pattern.first?_opening _ _).trans whole
      have parts : lead ++ (keyword ++ (mark ++ separator)) ++ (name ++ after) =
          lead ++ (keyword ++ (mark ++ (separator ++ (name ++ after)))) := by
        simp only [List.append_assoc]
      refine ⟨_, by rw [parts]; exact found, ?_, ?_⟩
      · cases nature <;> rfl
      · have before : lead ++ keyword ++ mark ++ separator =
            lead ++ (keyword ++ (mark ++ separator)) := by
          simp only [List.append_assoc]
        cases nature <;> exact congrArg (fun front => some (front, name)) before

theorem UnitCut.first? {line : List Char} {statement : Statement UnitKind}
    (isUnit : UnitCut line statement) :
    ∃ passage, unitPattern.first? line = some passage ∧
      UnitCaptures passage statement.property statement.before statement.name := by
  cases isUnit with
  | @cut lead keyword gap name after kind leading spelled between nonempty isName tail =>
      cases tail with
      | @cut trail comment behind isComment =>
          obtain ⟨c, rest, named, noBlank, -, -⟩ := isName.start (trail ++ comment)
          have nameStops : Stops isBlank (name ++ (trail ++ comment)) := by
            rw [named]
            exact stops_cons noBlank rest
          have blanks : (Pattern.run isBlank).Prefers
              ⟨[], lead ++ (keyword ++ (gap ++ (name ++ (trail ++ comment)))), []⟩
              ⟨lead, keyword ++ (gap ++ (name ++ (trail ++ comment))), []⟩ :=
            Pattern.prefers_run leading (stops_blank_of_kind spelled _)
          have trailing : (Pattern.run isBlank).Prefers
              ⟨lead ++ keyword ++ gap ++ name, trail ++ comment,
                [(1, lead, keyword), (2, lead ++ keyword ++ gap, name)]⟩
              ⟨lead ++ keyword ++ gap ++ name ++ trail, comment,
                [(1, lead, keyword), (2, lead ++ keyword ++ gap, name)]⟩ :=
            Pattern.prefers_run behind (isComment.stops (by decide))
          have whole := blanks.both (((prefers_kind_pattern spelled).group 1).both
            ((prefers_gap_pattern between nonempty nameStops).both
              (((prefers_name_pattern isName (Tail.cut behind isComment).stops).group 2).both
                (trailing.both ((prefers_comment_pattern isComment).both
                  (Pattern.prefers_ending.both Pattern.prefers_nothing))))))
          have found := (Pattern.first?_opening _ _).trans whole
          have parts : lead ++ (keyword ++ gap) ++ (name ++ (trail ++ comment)) =
              lead ++ (keyword ++ (gap ++ (name ++ (trail ++ comment)))) := by
            simp only [List.append_assoc]
          refine ⟨_, by rw [parts]; exact found, ⟨lead, keyword, rfl, ?_⟩, ?_⟩
          · exact kind_of_keyword spelled
          · exact congrArg (fun front => some (front, name)) (List.append_assoc _ _ _)

/-! What the patterns describe. -/

section Described

variable {text rest : List Char}

theorem spelled_of_reads {keyword : List Char} (reads : (wordPattern keyword).Reads text rest) :
    ∃ word, word.map folded = keyword ∧ text = word ++ rest := by
  induction keyword generalizing text with
  | nil => exact ⟨[], rfl, reads⟩
  | cons letter keyword induction =>
      obtain ⟨middle, ⟨c, same, rfl⟩, later⟩ := reads
      obtain ⟨word, spelled, rfl⟩ := induction later
      exact ⟨c :: word, congrArg₂ List.cons (beq_iff_eq.mp same) spelled, rfl⟩

theorem either_of_reads {first second : List Char}
    (reads : (Pattern.either (wordPattern first) (wordPattern second)).Reads text rest) :
    ∃ word, (word.map folded = first ∨ word.map folded = second) ∧ text = word ++ rest := by
  rcases reads with left | right
  · obtain ⟨word, spelled, whole⟩ := spelled_of_reads left
    exact ⟨word, .inl spelled, whole⟩
  · obtain ⟨word, spelled, whole⟩ := spelled_of_reads right
    exact ⟨word, .inr spelled, whole⟩

theorem is_name_of_reads (reads : namePattern.Reads text rest) :
    ∃ name, IsName name ∧ text = name ++ rest := by
  obtain ⟨middle, ⟨c, start, rfl⟩, behind, ⟨letters, words, rfl⟩, rfl⟩ := reads
  exact ⟨c :: letters, ⟨start, words⟩, rfl⟩

theorem mark_of_reads (reads : naturePattern.Reads text rest) :
    ∃ nature mark, Mark nature mark ∧ text = mark ++ rest := by
  rcases reads with ⟨_, ⟨lead, leading, rfl⟩, _, ⟨c, comma, rfl⟩, _, ⟨gap, between, rfl⟩, _, words,
    rfl⟩ | rfl
  · obtain rfl := beq_iff_eq.mp comma
    obtain ⟨word, spelled, rfl⟩ := either_of_reads words
    exact ⟨_, _, .nature leading between spelled, by simp⟩
  · exact ⟨none, [], .absent, rfl⟩

theorem gap_of_reads (reads : gapPattern.Reads text rest) :
    ∃ gap, Blanks gap ∧ gap ≠ [] ∧ text = gap ++ rest := by
  obtain ⟨_, ⟨c, blank, rfl⟩, _, ⟨others, blanks, rfl⟩, rfl⟩ := reads
  exact ⟨c :: others, List.forall_mem_cons.mpr ⟨blank, blanks⟩, List.cons_ne_nil _ _, rfl⟩

theorem separator_of_reads (reads : separatorPattern.Reads text rest) :
    ∃ separator, Separator separator ∧ text = separator ++ rest := by
  rcases reads with ⟨_, ⟨left, before, rfl⟩, _, ⟨c, first, rfl⟩, _, ⟨d, second, rfl⟩, _,
    ⟨right, behind, rfl⟩, rfl⟩ | blank
  · obtain rfl := beq_iff_eq.mp first
    obtain rfl := beq_iff_eq.mp second
    exact ⟨_, .colons before behind, by simp⟩
  · obtain ⟨gap, blanks, nonempty, rfl⟩ := gap_of_reads blank
    exact ⟨gap, .blanks blanks nonempty, rfl⟩

theorem comment_of_reads (reads : commentPattern.Reads text []) : Comment text := by
  rcases reads with ⟨_, ⟨c, mark, rfl⟩, _, ⟨comment, single, rfl⟩, rfl⟩ | rfl
  · obtain rfl := beq_iff_eq.mp mark
    rw [List.append_nil]
    exact .text fun member => absurd rfl (bne_iff_ne.mp (single _ member))
  · exact .absent

end Described

/-- A name goes on as far as there are word characters. -/
theorem IsName.append {name letters : List Char} (isName : IsName name)
    (words : ∀ c ∈ letters, isWordChar c = true) : IsName (name ++ letters) := by
  cases name with
  | nil => exact isName.elim
  | cons c rest =>
      refine ⟨isName.1, ?_⟩
      intro next member
      rcases List.mem_append.mp member with own | added
      · exact isName.2 next own
      · exact words next added

theorem IsName.extend {name : List Char} (isName : IsName name) (rest : List Char) :
    ∃ longer after, IsName longer ∧ Stops isWordChar after ∧ name ++ rest = longer ++ after := by
  refine ⟨name ++ rest.takeWhile isWordChar, rest.dropWhile isWordChar, ?_,
    stops_drop_while isWordChar rest, ?_⟩
  · exact isName.append fun c member => List.mem_takeWhile_imp member
  · rw [List.append_assoc, List.takeWhile_append_dropWhile]

/-- A line in which the pattern of uses finds something can be cut. -/
theorem exists_use_cut {line : List Char} {passage : Passage}
    (found : usePattern.first? line = some passage) : ∃ statement, UseCut line statement := by
  have way := List.mem_of_head? ((Pattern.first?_opening _ _).symm.trans found)
  obtain ⟨_, ⟨lead, leading, whole⟩, _, word, _, nature, _, separated, _, named, -⟩ :=
    Pattern.reads_of_mem way
  obtain ⟨keyword, spelled, rfl⟩ := spelled_of_reads word
  obtain ⟨nature, mark, isMark, rfl⟩ := mark_of_reads nature
  obtain ⟨separator, isSeparator, rfl⟩ := separator_of_reads separated
  obtain ⟨part, isPart, rfl⟩ := is_name_of_reads named
  obtain ⟨name, after, isName, stops, same⟩ := isPart.extend _
  have parts : line = (lead ++ (keyword ++ (mark ++ separator))) ++ (name ++ after) := by
    rw [← same]
    simpa [Passage.atStart] using whole
  rw [parts]
  exact ⟨_, .cut leading spelled isMark isSeparator isName stops⟩

theorem exists_unit_cut {line : List Char} {passage : Passage}
    (found : unitPattern.first? line = some passage) : ∃ statement, UnitCut line statement := by
  have way := List.mem_of_head? ((Pattern.first?_opening _ _).symm.trans found)
  obtain ⟨_, ⟨lead, leading, whole⟩, _, word, _, gaps, _, named, comment, ⟨trail, behind, rest⟩, _,
    commented, _, ⟨rfl, -⟩, -⟩ := Pattern.reads_of_mem way
  obtain ⟨keyword, spelled, rfl⟩ := either_of_reads word
  obtain ⟨kind, kindSpelled⟩ : ∃ kind : UnitKind, keyword.map folded = kind.name.toList := by
    rcases spelled with moduleWord | programWord
    · exact ⟨.moduleUnit, moduleWord⟩
    · exact ⟨.mainProgram, programWord⟩
  obtain ⟨gap, between, nonempty, rfl⟩ := gap_of_reads gaps
  obtain ⟨name, isName, rfl⟩ := is_name_of_reads named
  subst rest
  have tail := Tail.cut behind (comment_of_reads commented)
  have parts : line = (lead ++ (keyword ++ gap)) ++ (name ++ (trail ++ comment)) := by
    simpa [Passage.atStart] using whole
  rw [parts]
  exact ⟨_, .cut leading kindSpelled between nonempty isName tail⟩

/-! A pattern and its grammar. -/

/-- A pattern finds something exactly in the lines that can be cut, and captures the parts of the
cut. -/
structure Recognises {Property : Type} (pattern : Pattern)
    (Cut : List Char → Statement Property → Prop)
    (Captures : Passage → Property → List Char → List Char → Prop) : Prop where
  finds : ∀ {line statement}, Cut line statement → ∃ passage, pattern.first? line = some passage ∧
    Captures passage statement.property statement.before statement.name
  cuts : ∀ {line passage}, pattern.first? line = some passage → ∃ statement, Cut line statement
  captured : ∀ {passage property other before name otherBefore otherName},
    Captures passage property before name → Captures passage other otherBefore otherName →
      property = other ∧ before = otherBefore ∧ name = otherName
  whole : ∀ {line statement}, Cut line statement →
    line = statement.before ++ (statement.name ++ statement.after)

/-- What is before the name, and the name, determine what is after it. -/
theorem Statement.ext_of_whole {Property : Type} {first second : Statement Property}
    (property : first.property = second.property) (before : first.before = second.before)
    (name : first.name = second.name)
    (whole : first.before ++ (first.name ++ first.after) =
      second.before ++ (second.name ++ second.after)) : first = second := by
  rw [← before, ← name] at whole
  have after := List.append_cancel_left (List.append_cancel_left whole)
  cases first
  cases second
  cases property
  cases before
  cases name
  cases after
  rfl

section Recognised

variable {Property : Type} {pattern : Pattern} {Cut : List Char → Statement Property → Prop}
  {Captures : Passage → Property → List Char → List Char → Prop}
  (recognises : Recognises pattern Cut Captures) {line : List Char}

include recognises

/-- The preferred way through the pattern is the same for two cuts. -/
theorem Recognises.unique {first second : Statement Property} (isFirst : Cut line first)
    (isSecond : Cut line second) : first = second := by
  obtain ⟨passage, found, captures⟩ := recognises.finds isFirst
  obtain ⟨other, again, others⟩ := recognises.finds isSecond
  obtain rfl := Option.some.inj (found.symm.trans again)
  obtain ⟨property, before, name⟩ := recognises.captured captures others
  have same := (recognises.whole isFirst).symm.trans (recognises.whole isSecond)
  exact Statement.ext_of_whole property before name same

theorem Recognises.captures_iff {property : Property} {before name : List Char} :
    (∃ passage, pattern.first? line = some passage ∧ Captures passage property before name) ↔
      ∃ after, Cut line ⟨property, before, name, after⟩ := by
  constructor
  · rintro ⟨passage, found, captures⟩
    obtain ⟨statement, isCut⟩ := recognises.cuts found
    obtain ⟨other, again, others⟩ := recognises.finds isCut
    obtain rfl := Option.some.inj (found.symm.trans again)
    obtain ⟨rfl, rfl, rfl⟩ := recognises.captured captures others
    exact ⟨statement.after, isCut⟩
  · rintro ⟨after, isCut⟩
    exact recognises.finds isCut

end Recognised

theorem recognises_uses : Recognises usePattern UseCut UseCaptures where
  finds := UseCut.first?
  cuts := exists_use_cut
  captured := by
    rintro passage nature other before name otherBefore otherName ⟨same, named⟩ ⟨again, renamed⟩
    exact ⟨same.symm.trans again, Prod.mk.inj (Option.some.inj (named.symm.trans renamed))⟩
  whole := by
    intro line statement isUse
    cases isUse
    rfl

theorem recognises_units : Recognises unitPattern UnitCut UnitCaptures where
  finds := UnitCut.first?
  cuts := exists_unit_cut
  captured := by
    rintro passage kind other before name otherBefore otherName ⟨⟨lead, keyword, word, rfl⟩, named⟩
      ⟨⟨_, _, again, rfl⟩, renamed⟩
    cases Option.some.inj (word.symm.trans again)
    exact ⟨rfl, Prod.mk.inj (Option.some.inj (named.symm.trans renamed))⟩
  whole := by
    intro line statement isUnit
    cases isUnit
    rfl

/-! The scan of a line. -/

theorem use_statement?_iff {line : List Char} {statement : Statement Bool} :
    useStatement? line = some statement ↔
      ∃ cut, UseCut line cut ∧
        statement = ⟨isIntrinsic cut.property, cut.before, cut.name, cut.after⟩ := by
  rw [use_statement?_eq_some]
  constructor
  · intro isUse
    obtain ⟨nature, isCut, marked⟩ := use_line_iff.mp isUse
    exact ⟨_, isCut, by rw [marked]⟩
  · rintro ⟨cut, isCut, rfl⟩
    exact use_line_iff.mpr ⟨cut.property, isCut, rfl⟩

theorem used_module?_iff {file : Path} {line : Line} {edge : UseEdge} :
    usedModule? file line = some edge ↔
      ∃ cut, UseCut line.text.toList cut ∧
        edge = ⟨file, cut.unitName, isIntrinsic cut.property, line.location.line⟩ := by
  rw [used_module_eq, Option.map_eq_some_iff]
  constructor
  · rintro ⟨statement, read, rfl⟩
    obtain ⟨cut, isCut, rfl⟩ := use_statement?_iff.mp read
    exact ⟨cut, isCut, rfl⟩
  · rintro ⟨cut, isCut, rfl⟩
    exact ⟨_, use_statement?_iff.mpr ⟨cut, isCut, rfl⟩, rfl⟩

theorem declared_unit?_iff {line : Line} {kind : UnitKind} {name : String} :
    declaredUnit? line = some (kind, name) ↔
      ∃ cut, UnitCut line.text.toList cut ∧ cut.property = kind ∧ cut.unitName = name ∧
        name ≠ "procedure" := by
  rw [declared_unit?_eq, Option.bind_eq_some_iff]
  constructor
  · rintro ⟨⟨found, property⟩, content, named⟩
    obtain ⟨statement, read, same⟩ := Option.map_eq_some_iff.mp content
    cases same
    dsimp only at named
    split at named
    · cases named
    · next other =>
        cases named
        exact ⟨statement, unit_line_iff.mp (unit_statement?_eq_some.mp read), rfl, rfl, other⟩
  · rintro ⟨cut, isCut, rfl, rfl, other⟩
    have read := unit_statement?_eq_some.mpr (unit_line_iff.mpr isCut)
    refine ⟨cut.content, ?_, if_neg other⟩
    rw [unitContent?, read, Option.map_some]

theorem UseCut.not_unit_cut {line : List Char} {use : Statement (Option (List Char))}
    {unit : Statement UnitKind} (isUse : UseCut line use) : ¬UnitCut line unit := by
  intro isUnit
  have isLine := use_line_iff.mpr ⟨use.property, isUse, rfl⟩
  exact isLine.not_unit_line unit (unit_line_iff.mpr isUnit)

theorem unit_name_span_iff {line : String} {span : Preprocess.Span} :
    unitNameSpan line = some span ↔
      (∃ cut, UseCut line.toList cut ∧ cut.nameSpan = span) ∨
        ∃ cut, UnitCut line.toList cut ∧ cut.nameSpan = span := by
  rw [unit_name_span_eq_some]
  constructor
  · rintro (⟨statement, isUse, rfl⟩ | ⟨statement, isUnit, rfl⟩)
    · obtain ⟨nature, isCut, -⟩ := use_line_iff.mp isUse
      exact .inl ⟨_, isCut, rfl⟩
    · exact .inr ⟨statement, unit_line_iff.mp isUnit, rfl⟩
  · rintro (⟨cut, isCut, rfl⟩ | ⟨cut, isCut, rfl⟩)
    · exact .inl ⟨_, use_line_iff.mpr ⟨cut.property, isCut, rfl⟩, rfl⟩
    · exact .inr ⟨cut, unit_line_iff.mpr isCut, rfl⟩

/-! The first uses. -/

theorem first_uses_sublist (edges : List UseEdge) : (firstUses edges).Sublist edges := by
  induction edges with
  | nil => exact .slnil
  | cons edge rest induction => exact (List.filter_sublist.trans induction).cons_cons edge

theorem nodup_first_uses (edges : List UseEdge) : ((firstUses edges).map (·.name)).Nodup := by
  induction edges with
  | nil => exact List.nodup_nil
  | cons edge rest induction =>
      rw [firstUses, List.map_cons, List.nodup_cons]
      constructor
      · intro member
        obtain ⟨other, inside, same⟩ := List.mem_map.mp member
        exact bne_iff_ne.mp (List.mem_filter.mp inside).2 same
      · exact induction.sublist (List.filter_sublist.map _)

/-- The two patterns accept exactly their grammar. A letter of a keyword, or the start of a name,
stands for the characters with the same simple case folding. What a pattern finds is the cut of a
line into the parts of a statement; there is at most one, and no line can be cut in both ways. The
scan reads the name in lower case, the mark, the kind and the bytes of the name from that cut. Of
the uses in a list of lines it keeps the first one of each module, in the order of the lines, and
of the units it tells whether there is none, one or several. -/
theorem statement_patterns_follow_grammar :
    (∀ letter ∈ nameLetters, ∀ c, folded c = letter ↔ c ∈ caseForms letter) ∧
    (∀ c, isNameStart (folded c) = true ↔ ∃ letter ∈ nameLetters, c ∈ caseForms letter) ∧
    (∀ line nature before name,
      (∃ passage, usePattern.first? line = some passage ∧ UseCaptures passage nature before name) ↔
        ∃ after, UseCut line ⟨nature, before, name, after⟩) ∧
    (∀ line kind before name,
      (∃ passage, unitPattern.first? line = some passage ∧
          UnitCaptures passage kind before name) ↔
        ∃ after, UnitCut line ⟨kind, before, name, after⟩) ∧
    (∀ line first second, UseCut line first → UseCut line second → first = second) ∧
    (∀ line first second, UnitCut line first → UnitCut line second → first = second) ∧
    (∀ line use unit, UseCut line use → ¬UnitCut line unit) ∧
    (∀ (file : Path) (line : Line) edge, usedModule? file line = some edge ↔
      ∃ cut, UseCut line.text.toList cut ∧
        edge = ⟨file, cut.unitName, isIntrinsic cut.property, line.location.line⟩) ∧
    (∀ (line : Line) kind name, declaredUnit? line = some (kind, name) ↔
      ∃ cut, UnitCut line.text.toList cut ∧ cut.property = kind ∧ cut.unitName = name ∧
        name ≠ "procedure") ∧
    (∀ (line : String) span, unitNameSpan line = some span ↔
      (∃ cut, UseCut line.toList cut ∧ cut.nameSpan = span) ∨
        ∃ cut, UnitCut line.toList cut ∧ cut.nameSpan = span) ∧
    (∀ file lines,
      (findUses file lines).Sublist (lines.filterMap (usedModule? file)) ∧
      ((findUses file lines).map (·.name)).Nodup ∧
      ∀ edge, edge ∈ findUses file lines ↔
        (lines.filterMap (usedModule? file)).find? (·.name == edge.name) = some edge) ∧
    (∀ lines,
      (findDeclaration lines = .none ↔ lines.filterMap declaredUnit? = []) ∧
      (∀ kind name, findDeclaration lines = .one kind name ↔
        lines.filterMap declaredUnit? = [(kind, name)]) ∧
      ∀ names, findDeclaration lines = .several names ↔
        2 ≤ (lines.filterMap declaredUnit?).length ∧
          (lines.filterMap declaredUnit?).map Prod.snd = names) := by
  refine ⟨fun letter small c => folded_eq_iff small c, is_name_start_folded_iff, ?_, ?_, ?_, ?_, ?_,
    ?_, ?_, ?_, ?_, ?_⟩
  · intro line nature before name
    exact recognises_uses.captures_iff
  · intro line kind before name
    exact recognises_units.captures_iff
  · intro line first second isFirst isSecond
    exact recognises_uses.unique isFirst isSecond
  · intro line first second isFirst isSecond
    exact recognises_units.unique isFirst isSecond
  · intro line use unit isUse
    exact isUse.not_unit_cut
  · intro file line edge
    exact used_module?_iff
  · intro line kind name
    exact declared_unit?_iff
  · intro line span
    exact unit_name_span_iff
  · intro file lines
    exact ⟨first_uses_sublist _, nodup_first_uses _, fun edge => mem_first_uses⟩
  · intro lines
    exact ⟨find_declaration_eq_none, fun kind name => find_declaration_eq_one,
      fun names => find_declaration_eq_several⟩

def intrinsicUse : Line := ⟨" USE , Intrinsic ::ISO_C_Binding, only: c_int", ⟨"a.f90", 3⟩⟩

theorem intrinsic_use_is_cut_once :
    (∃! cut, UseCut intrinsicUse.text.toList cut) ∧
      ¬UnitCut intrinsicUse.text.toList ⟨.moduleUnit, [], [], intrinsicUse.text.toList⟩ ∧
      usedModule? ⟨"a.f90"⟩ intrinsicUse = some ⟨⟨"a.f90"⟩, "iso_c_binding", true, 3⟩ ∧
      unitNameSpan intrinsicUse.text = some ⟨19, 32⟩ := by
  obtain ⟨-, -, -, -, unique, -, apart, uses, -, span, -⟩ := statement_patterns_follow_grammar
  have read : useStatement? intrinsicUse.text.toList = some
      ⟨true, " USE , Intrinsic ::".toList, "ISO_C_Binding".toList, ", only: c_int".toList⟩ := by
    cbv
  obtain ⟨⟨nature, before, name, after⟩, isCut, same⟩ := use_statement?_iff.mp read
  obtain ⟨intrinsic, rfl, rfl, -⟩ := Statement.mk.inj same
  have lowered : String.ofList (lower "ISO_C_Binding".toList) = "iso_c_binding" := by decide +kernel
  refine ⟨⟨_, isCut, fun other isOther => unique _ _ _ isOther isCut⟩, apart _ _ _ isCut, ?_, ?_⟩
  · apply (uses _ _ _).mpr
    refine ⟨_, isCut, ?_⟩
    rw [← intrinsic]
    exact congrArg (UseEdge.mk ⟨"a.f90"⟩ · true 3) lowered.symm
  · apply (span _ _).mpr
    exact .inl ⟨_, isCut, rfl⟩

end FortranDeps.Units

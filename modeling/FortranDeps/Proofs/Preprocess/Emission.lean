import FortranDeps.Preprocess.Pass
import FortranDeps.Proofs.Preprocess.Lexemes
import FortranDeps.Proofs.Units.Grammar

/-!
What becomes of a line that survives. In a statement about a unit only keywords and separators stand
before the name, so the line is expanded in three parts: the first stays, the name gives way to a
value only, and in the rest all defined names are replaced. A line that was expanded once stays as
it is, since every defined name is gone or is a unit's name that is kept again.
-/

namespace FortranDeps.Preprocess

open Text FortranDeps.Units

/-! The parts of a statement in a line of ASCII. -/

theorem gap_of_blanks {text : List Char} (blanks : Blanks text) : Gap text := by
  intro c member
  have blank := blanks c member
  refine ⟨⟨?_, ?_⟩, ?_⟩
  · rintro (rfl | rfl) <;> cases blank
  · rintro rfl
    cases blank
  · by_contra name
    rw [is_blank_of_is_name_char (eq_true_of_ne_false name)] at blank
    cases blank

theorem gap_punctuated {first second : List Char} {c : Char} (isGap : Gap first)
    (later : Gap second) (own : (¬ IsQuote c ∧ c ≠ '!') ∧ isNameChar c = false) :
    Gap (first ++ c :: second) :=
  List.forall_mem_append.mpr ⟨isGap, List.forall_mem_cons.mpr ⟨own, later⟩⟩

theorem gap_separator {separator : List Char} (isSeparator : Separator separator) :
    Gap separator ∧ separator ≠ [] := by
  cases isSeparator with
  | colons before behind =>
      have colon : (¬ IsQuote ':' ∧ ':' ≠ '!') ∧ isNameChar ':' = false := by
        unfold IsQuote
        decide
      refine ⟨gap_punctuated (gap_of_blanks before) ?_ colon, by simp⟩
      exact List.forall_mem_cons.mpr ⟨colon, gap_of_blanks behind⟩
  | blanks blank nonempty => exact ⟨gap_of_blanks blank, nonempty⟩

theorem is_run_spelled {keyword word : List Char} (isRun : IsRun keyword)
    (spelled : word.map folded = keyword) (ascii : IsAscii word) :
    IsRun word ∧ word.map Char.toLower = keyword := by
  refine ⟨⟨?_, ?_⟩, ?_⟩
  · rintro rfl
    exact isRun.1 spelled.symm
  · intro c member
    have name : isNameChar (folded c) = true := by
      apply isRun.2
      rw [← spelled]
      exact List.mem_map_of_mem member
    have unfolded : isNameChar (folded c) = true → isNameChar c = true :=
      ascii_cases (ascii c member) (by decide)
    exact unfolded name
  · rw [← spelled]
    apply List.map_congr_left
    intro c member
    exact (folded_ascii (ascii c member)).symm

theorem is_run_name {name : List Char} (isName : IsName name) (ascii : IsAscii name) :
    IsRun name ∧ Lexeme.ofRun name = .word name := by
  cases name with
  | nil => exact isName.elim
  | cons c rest =>
      obtain ⟨start, words⟩ := isName
      obtain ⟨small, others⟩ := List.forall_mem_cons.mp ascii
      have letter : isNameStart (folded c) = true → isNameChar c = true ∧ c.isDigit = false :=
        ascii_cases small (by decide)
      obtain ⟨name, noDigit⟩ := letter start
      refine ⟨⟨List.cons_ne_nil _ _, ?_⟩, ?_⟩
      · refine List.forall_mem_cons.mpr ⟨name, ?_⟩
        intro next member
        have word := words next member
        unfold isWordChar at word
        rwa [if_pos (others next member)] at word
      · simp [Lexeme.ofRun, noDigit]

/-- The words before the name of a unit, in lower case. -/
def unitKeywords : List (List Char) :=
  ["use".toList, "module".toList, "program".toList, "intrinsic".toList, "non_intrinsic".toList]

namespace MacroTable

variable {table : MacroTable}

theorem mem_of_get? {name : String} {value : Option String}
    (found : table.get? name = some value) : (name, value) ∈ table.entries := by
  obtain ⟨before, after, whole, -⟩ := List.lookup_eq_some_iff.mp found
  rw [whole]
  exact List.mem_append_right _ List.mem_cons_self

/-- No keyword before the name of a unit is defined, in any letter case. -/
def SparesKeywords (table : MacroTable) : Prop :=
  ∀ name, name.toList.map Char.toLower ∈ unitKeywords → table.isDefined name = false

theorem spares_of_entries
    (free : ∀ entry ∈ table.entries, entry.1.toList.map Char.toLower ∉ unitKeywords) :
    table.SparesKeywords := by
  intro name keyword
  cases found : table.get? name with
  | none => simp [isDefined, found]
  | some value => exact absurd keyword (free _ (mem_of_get? found))

theorem quiet_spelled (spares : table.SparesKeywords) {keyword word : List Char}
    (isKeyword : keyword ∈ unitKeywords) (spelled : word.map folded = keyword)
    (ascii : IsAscii word) : table.Quiet word := by
  have runs : unitKeywords.all (fun keyword => !keyword.isEmpty && keyword.all isNameChar) = true :=
    by decide
  have names : IsRun keyword := by
    simpa [IsRun] using List.all_eq_true.mp runs keyword isKeyword
  obtain ⟨isRun, lower⟩ := is_run_spelled names spelled ascii
  apply quiet_run isRun
  apply spares
  rw [String.toList_ofList, lower]
  exact isKeyword

end MacroTable

open MacroTable (quiet_gap quiet_spelled expand_from_append expand_from_settled expand_from_beyond
  stops_replaced settled_replaced replaced_eq_self)

/-- The name of a unit in a line of ASCII, with what stands before and after it. -/
structure Placed (table : MacroTable) (before name after : List Char) : Prop where
  quiet : table.Quiet before
  apart : ∀ rest, Apart before rest
  isRun : IsRun name
  isWord : Lexeme.ofRun name = .word name
  stops : Stops isNameChar after

theorem apart_behind {gap : List Char} (isGap : Gap gap) (nonempty : gap ≠ [])
    (first rest : List Char) : Apart (first ++ gap) rest := by
  intro last isLast
  apply apart_gap isGap rest last
  rw [List.getLast?_append, List.getLast?_eq_some_getLast nonempty] at isLast
  rw [List.getLast?_eq_some_getLast nonempty]
  exact isLast

theorem quiet_mark {table : MacroTable} (spares : table.SparesKeywords)
    {nature : Option (List Char)} {mark separator : List Char} (isMark : Mark nature mark)
    (isSeparator : Separator separator) (ascii : IsAscii mark) :
    table.Quiet (mark ++ separator) ∧ Stops isNameChar (mark ++ separator) := by
  obtain ⟨isGap, -⟩ := gap_separator isSeparator
  have stops := stops_gap isGap
  cases isMark with
  | absent => exact ⟨quiet_gap isGap, stops⟩
  | @nature lead gap word leading between spelled =>
      have comma : (¬ IsQuote ',' ∧ ',' ≠ '!') ∧ isNameChar ',' = false := by
        unfold IsQuote
        decide
      have opening := gap_punctuated (gap_of_blanks leading) (gap_of_blanks between) comma
      have shape : lead ++ ',' :: (gap ++ word) ++ separator =
          (lead ++ ',' :: gap) ++ (word ++ separator) := by
        simp
      have small : IsAscii word := by
        intro c member
        apply ascii
        simp [member]
      have quiet : table.Quiet word := by
        rcases spelled with spelled | spelled
        · exact quiet_spelled spares (by decide) spelled small
        · exact quiet_spelled spares (by decide) spelled small
      rw [shape]
      refine ⟨?_, (stops_gap opening).append (by simp)⟩
      have behind := quiet.append (quiet_gap isGap) (apart_of_stops stops _)
      exact (quiet_gap opening).append behind (apart_gap opening _)

theorem placed_use {table : MacroTable} (spares : table.SparesKeywords) {line : List Char}
    {statement : Statement Bool} (isUse : UseLine line statement) (ascii : IsAscii line) :
    Placed table statement.before statement.name statement.after := by
  cases isUse with
  | @cut lead keyword mark separator name after nature leading spelled isMark isSeparator isName
      stops =>
      simp only [IsAscii, List.forall_mem_append] at ascii
      obtain ⟨⟨-, keywordAscii, markAscii, -⟩, nameAscii, -⟩ := ascii
      obtain ⟨isGap, nonempty⟩ := gap_separator isSeparator
      obtain ⟨isRun, isWord⟩ := is_run_name isName nameAscii
      have quiet := quiet_spelled spares (by decide) spelled keywordAscii
      obtain ⟨marked, boundary⟩ := quiet_mark spares isMark isSeparator markAscii
      refine ⟨?_, ?_, isRun, isWord, stops.names⟩
      · apply (quiet_gap (gap_of_blanks leading)).append
        · exact quiet.append marked (apart_of_stops boundary _)
        · exact apart_gap (gap_of_blanks leading) _
      · intro rest
        have behind := apart_behind isGap nonempty (lead ++ (keyword ++ mark)) rest
        simpa only [List.append_assoc] using behind

theorem placed_unit {table : MacroTable} (spares : table.SparesKeywords) {line : List Char}
    {statement : Statement UnitKind} (isUnit : UnitLine line statement) (ascii : IsAscii line) :
    Placed table statement.before statement.name statement.after := by
  cases isUnit with
  | @cut lead keyword gap name after kind leading spelled between nonempty isName stops ends =>
      simp only [IsAscii, List.forall_mem_append] at ascii
      obtain ⟨⟨-, keywordAscii, -⟩, nameAscii, -⟩ := ascii
      have isGap := gap_of_blanks between
      have boundary := stops_gap isGap
      obtain ⟨isRun, isWord⟩ := is_run_name isName nameAscii
      have known : kind.name.toList ∈ unitKeywords := by
        cases kind <;> decide
      have quiet := quiet_spelled spares known spelled keywordAscii
      refine ⟨?_, ?_, isRun, isWord, stops.names⟩
      · apply (quiet_gap (gap_of_blanks leading)).append
        · exact quiet.append (quiet_gap isGap) (apart_of_stops boundary _)
        · exact apart_gap (gap_of_blanks leading) _
      · intro rest
        have behind := apart_behind isGap nonempty (lead ++ keyword) rest
        simpa only [List.append_assoc] using behind

/-! The expansion around a name. -/

/-- A name is kept unless it is defined with a value. -/
theorem MacroTable.kept_or_quiet {table : MacroTable} (terminal : table.Terminal)
    (name : List Char) :
    (Lexeme.word name).image table true = name ∨
      table.Quiet ((Lexeme.word name).image table true) := by
  cases definition : table.get? (String.ofList name) with
  | none =>
      left
      simp [Lexeme.image, definition]
  | some value =>
      have quiet := terminal _ value definition
      cases value with
      | none =>
          left
          simp [Lexeme.image, definition]
      | some text =>
          right
          simpa [Lexeme.image, definition] using quiet

namespace Placed

variable {table : MacroTable} {before name after : List Char}
  (placed : Placed table before name after)

include placed

theorem split_eq :
    Lexeme.split (before ++ (name ++ after)) =
      Lexeme.split before ++ .word name :: Lexeme.split after := by
  rw [Lexeme.split_append placed.quiet.opened (placed.apart _),
    Lexeme.split_run placed.isRun placed.stops, placed.isWord]

theorem expand_from_eq :
    table.expandFrom (some ⟨byteLength before, byteLength before + byteLength name⟩) 0
        (Lexeme.split (before ++ (name ++ after))) =
      before ++ ((Lexeme.word name).image table true ++ table.replaced after) := by
  have covered : Span.covers ⟨byteLength before, byteLength before + byteLength name⟩
      (byteLength before) (byteLength before + byteLength name) = true := by
    simp [Span.covers]
  have later : table.expandFrom (some ⟨byteLength before, byteLength before + byteLength name⟩)
      (byteLength before + byteLength name) (Lexeme.split after) = table.replaced after := by
    apply expand_from_beyond (Nat.le_refl _)
    intro lexeme member
    exact Lexeme.text_ne_nil member
  rw [placed.split_eq, expand_from_append, expand_from_settled placed.quiet.settled,
    Lexeme.flat_map_text_split, Nat.zero_add]
  simp only [MacroTable.expandFrom, Lexeme.text, Option.any_some, covered, later]

theorem settled_eq (terminal : table.Terminal)
    (quiet : table.Quiet ((Lexeme.word name).image table true)) :
    table.Settled (before ++ ((Lexeme.word name).image table true ++ table.replaced after)) := by
  have boundary : Stops isNameChar (table.replaced after) :=
    stops_replaced placed.stops placed.stops
  have behind := quiet.settled.append (settled_replaced terminal after) quiet.opened
    (apart_of_stops boundary _)
  exact placed.quiet.settled.append behind placed.quiet.opened (placed.apart _)

end Placed

theorem replaced_ending {table : MacroTable} {after : List Char}
    (ends : endsStatement after = true) : table.replaced after = after := by
  obtain ⟨lead, leading, whole⟩ := exists_blanks after
  have tail : table.replaced (trimStart after) = trimStart after := by
    unfold endsStatement at ends
    split at ends
    · next blank =>
        rw [blank]
        simp [MacroTable.replaced, Lexeme.split]
    · next c comment marked =>
        simp only [Bool.and_eq_true, beq_iff_eq] at ends
        rw [marked, ends.1]
        exact MacroTable.replaced_comment
  rw [whole, MacroTable.replaced_gap (gap_of_blanks leading), tail]

theorem text_emit_line (line : Line) (table : MacroTable) :
    (emitLine line table).text.toList =
      table.expandFrom (unitNameSpan line.text) 0 (Lexeme.split line.text.toList) :=
  table.expand_eq line.text _

theorem emit_line_eq_self {table : MacroTable} {line : Line}
    (same : table.expandFrom (unitNameSpan line.text) 0 (Lexeme.split line.text.toList) =
      line.text.toList) : emitLine line table = line := by
  rw [← text_emit_line] at same
  have text : (emitLine line table).text = line.text := String.toList_inj.mp same
  cases line
  simp_all [emitLine]

/-- A line in which the name, if it is kept, is found again is not expanded any further. -/
theorem Placed.emit_line_emit_line {table : MacroTable} {before name after : List Char}
    (placed : Placed table before name after) (terminal : table.Terminal) {line : Line}
    (whole : line.text.toList = before ++ (name ++ after))
    (span : unitNameSpan line.text = some ⟨byteLength before, byteLength before + byteLength name⟩)
    (again : unitNameSpan (String.ofList (before ++ (name ++ table.replaced after))) =
      some ⟨byteLength before, byteLength before + byteLength name⟩) :
    emitLine (emitLine line table) table = emitLine line table := by
  have parts : (emitLine line table).text.toList =
      before ++ ((Lexeme.word name).image table true ++ table.replaced after) := by
    rw [text_emit_line, span, whole]
    exact placed.expand_from_eq
  apply emit_line_eq_self
  rcases MacroTable.kept_or_quiet terminal name with kept | quiet
  -- A name that is kept stands in the same bytes as before, so it is protected once more.
  · rw [kept] at parts
    have text : (emitLine line table).text =
        String.ofList (before ++ (name ++ table.replaced after)) := by
      rw [← parts, String.ofList_toList]
    have later : Placed table before name (table.replaced after) :=
      { placed with stops := stops_replaced placed.stops placed.stops }
    have expanded := later.expand_from_eq
    rw [kept, replaced_eq_self (settled_replaced terminal after)] at expanded
    rw [text, again, String.toList_ofList]
    exact expanded
  · apply MacroTable.expand_from_eq_self
    rw [parts]
    exact placed.settled_eq terminal quiet

/-- An expanded line is not expanded any further. -/
theorem emit_line_emit_line {table : MacroTable} (terminal : table.Terminal)
    (spares : table.SparesKeywords) {line : Line} (ascii : IsAscii line.text.toList) :
    emitLine (emitLine line table) table = emitLine line table := by
  cases use : useStatement? line.text.toList with
  | some statement =>
      have isUse := use_statement?_eq_some.mp use
      have placed := placed_use spares isUse ascii
      have behind : Stops isWordChar (table.replaced statement.after) :=
        stops_replaced isUse.stops placed.stops
      have again := use_statement?_eq_some.mpr (isUse.followed_by behind)
      apply placed.emit_line_emit_line terminal isUse.whole
      · simp only [unitNameSpan, use]
        rfl
      · simp only [unitNameSpan, String.toList_ofList, again]
        rfl
  | none =>
      cases unit : unitStatement? line.text.toList with
      | some statement =>
          have isUnit := unit_line_of_unit_statement? unit
          have span : unitNameSpan line.text = some statement.nameSpan := by
            simp only [unitNameSpan, use, unit]
            rfl
          apply (placed_unit spares isUnit ascii).emit_line_emit_line terminal isUnit.whole span
          -- Only blanks and a comment follow the name, so with the name the line has stayed.
          rw [replaced_ending isUnit.ends, ← isUnit.whole, String.ofList_toList]
          exact span
      | none =>
          have span : unitNameSpan line.text = none := by
            simp only [unitNameSpan, use, unit]
            rfl
          apply emit_line_eq_self
          apply MacroTable.expand_from_eq_self
          rw [text_emit_line, span, MacroTable.expand_from_none]
          exact settled_replaced terminal line.text.toList

end FortranDeps.Preprocess

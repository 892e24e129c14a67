import FortranDeps.Proofs.Preprocess.Emission
import FortranDeps.Proofs.Units.Rescan
import Mathlib

/-!
Names without values in the statements about units. The name of a unit is kept from them, and
elsewhere a bare name becomes a number, which is no part of a statement. So a statement that is
found in an expanded line is already one in the line itself: what stands before its name is read
back lexeme by lexeme.
-/

namespace FortranDeps.Preprocess

open Text FortranDeps.Units

/-- No name of the table has a value. -/
def MacroTable.Bare (table : MacroTable) : Prop :=
  ∀ name value, table.get? name = some value → value = none

theorem MacroTable.bare_of_entries {table : MacroTable}
    (unvalued : ∀ entry ∈ table.entries, entry.2 = none) : table.Bare :=
  fun _ _ found => unvalued _ (mem_of_get? found)

/-! Lexemes that are read back from an expanded line. -/

section ReadBack

variable {table : MacroTable}

theorem run_append_inj {first second left right : List Char}
    (names : ∀ c ∈ first, isNameChar c = true) (others : ∀ c ∈ second, isNameChar c = true)
    (stops : Stops isNameChar left) (ends : Stops isNameChar right)
    (same : first ++ left = second ++ right) : first = second ∧ left = right := by
  constructor
  · have taken := congrArg (List.takeWhile isNameChar) same
    rwa [take_while_run names stops, take_while_run others ends] at taken
  · have dropped := congrArg (List.dropWhile isNameChar) same
    rwa [drop_while_run names stops, drop_while_run others ends] at dropped

/-- A bare name stays or becomes a number. -/
theorem image_bare (bare : table.Bare) (run : List Char) :
    (Lexeme.ofRun run).image table false = run ∨
      (Lexeme.ofRun run).image table false = ['1'] := by
  unfold Lexeme.ofRun
  split
  · exact .inl rfl
  · cases definition : table.get? (String.ofList run) with
    | none => simp [Lexeme.image, definition]
    | some value =>
        obtain rfl := bare _ value definition
        right
        simp [Lexeme.image, definition, MacroTable.substitution]

theorem is_run_image (bare : table.Bare) {run : List Char} (isRun : IsRun run) :
    IsRun ((Lexeme.ofRun run).image table false) := by
  rcases image_bare bare run with same | number
  · rwa [same]
  · rw [number]
    exact ⟨by simp, List.forall_mem_singleton.mpr (by decide)⟩

/-- A line begins with no name, or with a run that can be set apart. -/
theorem stops_or_run (line : List Char) : Stops isNameChar line ∨
    ∃ run rest, IsRun run ∧ Stops isNameChar rest ∧ line = run ++ rest := by
  cases line with
  | nil => exact .inl (by simp [Stops])
  | cons c rest =>
      cases name : isNameChar c with
      | false => exact .inl (stops_cons name rest)
      | true =>
          refine .inr ⟨(c :: rest).takeWhile isNameChar, (c :: rest).dropWhile isNameChar, ?_,
            stops_drop_while isNameChar _, List.takeWhile_append_dropWhile.symm⟩
          refine ⟨by simp [name], ?_⟩
          intro next member
          exact List.mem_takeWhile_imp member

theorem IsRun.not_stops {run : List Char} (isRun : IsRun run) (rest : List Char) :
    ¬ Stops isNameChar (run ++ rest) := by
  intro stops
  cases run with
  | nil => exact isRun.1 rfl
  | cons c others =>
      have noName := stops c rfl
      rw [isRun.2 c List.mem_cons_self] at noName
      cases noName

/-- A line that begins with a name still does when it is expanded. -/
theorem stops_of_replaced (bare : table.Bare) {line : List Char}
    (stops : Stops isNameChar (table.replaced line)) : Stops isNameChar line := by
  rcases stops_or_run line with same | ⟨run, rest, isRun, ends, rfl⟩
  · exact same
  · rw [MacroTable.replaced_run isRun ends] at stops
    exact absurd stops ((is_run_image bare isRun).not_stops _)

theorem exists_of_replaced_cons (bare : table.Bare) {line rest : List Char} {c : Char}
    (noName : isNameChar c = false) (same : table.replaced line = c :: rest) :
    ∃ later, line = c :: later := by
  have stops : Stops isNameChar (table.replaced line) := by
    rw [same]
    exact stops_cons noName rest
  have first : (table.replaced line).head? = line.head? :=
    MacroTable.head?_replaced (stops_of_replaced bare stops)
  rw [same, List.head?_cons] at first
  exact List.head?_eq_some_iff.mp first.symm

theorem of_replaced_nil (bare : table.Bare) {line : List Char} (same : table.replaced line = []) :
    line = [] := by
  have stops : Stops isNameChar (table.replaced line) := by
    rw [same]
    simp [Stops]
  have first : (table.replaced line).head? = line.head? :=
    MacroTable.head?_replaced (stops_of_replaced bare stops)
  rw [same] at first
  exact List.head?_eq_none_iff.mp first.symm

theorem of_replaced_comment (bare : table.Bare) {line rest : List Char}
    (same : table.replaced line = '!' :: rest) : line = '!' :: rest := by
  obtain ⟨later, rfl⟩ := exists_of_replaced_cons bare (by decide) same
  rwa [MacroTable.replaced_comment] at same

theorem of_replaced_gap (bare : table.Bare) {line gap rest : List Char} (isGap : Gap gap)
    (same : table.replaced line = gap ++ rest) :
    ∃ later, line = gap ++ later ∧ table.replaced later = rest := by
  induction gap generalizing line with
  | nil => exact ⟨line, rfl, same⟩
  | cons c gap induction =>
      obtain ⟨⟨opened, noName⟩, others⟩ := List.forall_mem_cons.mp isGap
      obtain ⟨middle, rfl⟩ := exists_of_replaced_cons bare noName same
      rw [MacroTable.replaced_other opened noName] at same
      obtain ⟨later, rfl, behind⟩ := induction others (List.cons.inj same).2
      exact ⟨later, rfl, behind⟩

/-- A word that stands in an expanded line was there before: what replaces a bare name is none. -/
theorem of_replaced_word (bare : table.Bare) {line word rest : List Char} (isRun : IsRun word)
    (isWord : Lexeme.ofRun word = .word word) (stops : Stops isNameChar rest)
    (same : table.replaced line = word ++ rest) :
    ∃ later, line = word ++ later ∧ Stops isNameChar later ∧ table.replaced later = rest := by
  rcases stops_or_run line with noName | ⟨run, later, own, ends, rfl⟩
  · have boundary : Stops isNameChar (table.replaced line) :=
      MacroTable.stops_replaced noName noName
    rw [same] at boundary
    exact absurd boundary (isRun.not_stops rest)
  · rw [MacroTable.replaced_run own ends] at same
    have boundary : Stops isNameChar (table.replaced later) := MacroTable.stops_replaced ends ends
    obtain ⟨image, behind⟩ := run_append_inj (is_run_image bare own).2 isRun.2 boundary stops same
    rcases image_bare bare run with kept | number
    · rw [kept] at image
      exact ⟨later, by rw [image], ends, behind⟩
    · rw [number] at image
      rw [← image] at isWord
      cases isWord

theorem ascii_replaced (bare : table.Bare) {line : List Char} (ascii : IsAscii line) :
    IsAscii (table.replaced line) := by
  intro c member
  obtain ⟨lexeme, inLine, inImage⟩ := List.mem_flatMap.mp member
  have own : ∀ c ∈ lexeme.text, c.toNat < 0x80 := by
    intro c inText
    apply ascii
    rw [← Lexeme.flat_map_text_split line]
    exact List.mem_flatMap.mpr ⟨lexeme, inLine, inText⟩
  cases lexeme with
  | word name =>
      cases definition : table.get? (String.ofList name) with
      | none => exact own c (by simpa [Lexeme.image, Lexeme.text, definition] using inImage)
      | some value =>
          obtain rfl := bare _ value definition
          have number : c = '1' := by
            simpa [Lexeme.image, definition, MacroTable.substitution] using inImage
          rw [number]
          decide
  | literal | comment | number | other => exact own c inImage

/-! The parts of a statement that are read back. -/

theorem is_word_spelled {keyword word : List Char} (known : keyword ∈ unitKeywords)
    (spelled : word.map folded = keyword) (ascii : IsAscii word) :
    IsRun word ∧ Lexeme.ofRun word = .word word := by
  have letters : unitKeywords.all (fun keyword =>
      keyword.head?.any isNameStart && keyword.all isNameChar) = true := by decide
  have own := List.all_eq_true.mp letters keyword known
  rw [← spelled] at own
  cases word with
  | nil => simp at own
  | cons c rest =>
      simp only [List.map_cons, List.head?_cons, Option.any_some, List.all_cons, Bool.and_eq_true,
        List.all_map, List.all_eq_true, Function.comp_apply] at own
      obtain ⟨start, -, others⟩ := own
      apply is_run_name _ ascii
      refine ⟨start, ?_⟩
      intro next member
      apply is_word_char_of_is_name_char
      have unfolded : isNameChar (folded next) = true → isNameChar next = true :=
        ascii_cases (ascii next (List.mem_cons_of_mem c member)) (by decide)
      exact unfolded (others next member)

theorem of_replaced_spelled (bare : table.Bare) {line keyword word rest : List Char}
    (known : keyword ∈ unitKeywords) (spelled : word.map folded = keyword) (ascii : IsAscii word)
    (stops : Stops isNameChar rest) (same : table.replaced line = word ++ rest) :
    ∃ later, line = word ++ later ∧ table.replaced later = rest := by
  obtain ⟨isRun, isWord⟩ := is_word_spelled known spelled ascii
  obtain ⟨later, whole, -, behind⟩ := of_replaced_word bare isRun isWord stops same
  exact ⟨later, whole, behind⟩

theorem of_replaced_mark (bare : table.Bare) {line mark rest : List Char}
    {nature : Option (List Char)} (isMark : Mark nature mark) (ascii : IsAscii mark)
    (stops : Stops isNameChar rest) (same : table.replaced line = mark ++ rest) :
    ∃ later, line = mark ++ later ∧ table.replaced later = rest := by
  cases isMark with
  | absent => exact ⟨line, rfl, same⟩
  | @nature lead gap word leading between spelled =>
      have comma : (¬ IsQuote ',' ∧ ',' ≠ '!') ∧ isNameChar ',' = false := by
        unfold IsQuote
        decide
      have opening := gap_punctuated (gap_of_blanks leading) (gap_of_blanks between) comma
      have shape : lead ++ ',' :: (gap ++ word) = (lead ++ ',' :: gap) ++ word := by simp
      rw [shape, List.append_assoc] at same
      rw [shape] at ascii ⊢
      obtain ⟨middle, rfl, behind⟩ := of_replaced_gap bare opening same
      have small := (List.forall_mem_append.mp ascii).2
      obtain ⟨later, rfl, ends⟩ :
          ∃ later, middle = word ++ later ∧ table.replaced later = rest := by
        rcases spelled with spelled | spelled
        · exact of_replaced_spelled bare (by decide) spelled small stops behind
        · exact of_replaced_spelled bare (by decide) spelled small stops behind
      exact ⟨later, by simp, ends⟩

theorem stops_of_replaced_stops {isMember : Char → Bool} {line : List Char}
    (noName : Stops isNameChar line) (stops : Stops isMember (table.replaced line)) :
    Stops isMember line := by
  intro next first
  have same : (table.replaced line).head? = line.head? := MacroTable.head?_replaced noName
  rw [← same] at first
  exact stops next first

theorem ends_statement_of_replaced (bare : table.Bare) {line : List Char}
    (ends : endsStatement (table.replaced line) = true) : endsStatement line = true := by
  obtain ⟨lead, leading, whole⟩ := exists_blanks (table.replaced line)
  obtain ⟨rest, rfl, behind⟩ := of_replaced_gap bare (gap_of_blanks leading) whole
  have same : rest = table.replaced rest := by
    rw [behind]
    unfold endsStatement at ends
    split at ends
    · next blank =>
        rw [blank] at behind ⊢
        exact of_replaced_nil bare behind
    · next c comment marked =>
        simp only [Bool.and_eq_true, beq_iff_eq] at ends
        rw [marked, ends.1] at behind ⊢
        exact of_replaced_comment bare behind
  rwa [MacroTable.replaced_gap (gap_of_blanks leading), ← same] at ends

/-- An expanded line that is a use was one before. -/
theorem use_line_of_replaced (bare : table.Bare) {line : List Char} (ascii : IsAscii line)
    {statement : Statement Bool} (isUse : UseLine (table.replaced line) statement) :
    ∃ own, UseLine line own := by
  have small := ascii_replaced bare ascii
  generalize expanded : table.replaced line = text at isUse small
  cases isUse with
  | @cut lead keyword mark separator name after nature leading spelled isMark isSeparator isName
      stops =>
      simp only [IsAscii, List.forall_mem_append] at small
      obtain ⟨⟨-, keywordAscii, markAscii, -⟩, nameAscii, -⟩ := small
      obtain ⟨isGap, nonempty⟩ := gap_separator isSeparator
      obtain ⟨isRun, isWord⟩ := is_run_name isName nameAscii
      have separated : Stops isNameChar (separator ++ (name ++ after)) :=
        (stops_gap isGap).append (absurd · nonempty)
      have marked : Stops isNameChar (mark ++ (separator ++ (name ++ after))) := by
        rw [← List.append_assoc]
        have spares : MacroTable.empty.SparesKeywords := fun _ _ => rfl
        have boundary := (quiet_mark spares isMark isSeparator markAscii).2
        exact boundary.append fun empty => absurd (List.append_eq_nil_iff.mp empty).2 nonempty
      simp only [List.append_assoc] at expanded
      obtain ⟨opened, rfl, atKeyword⟩ := of_replaced_gap bare (gap_of_blanks leading) expanded
      obtain ⟨named, rfl, atMark⟩ :=
        of_replaced_spelled bare (by decide) spelled keywordAscii marked atKeyword
      obtain ⟨unmarked, rfl, atSeparator⟩ :=
        of_replaced_mark bare isMark markAscii separated atMark
      obtain ⟨own, rfl, atName⟩ := of_replaced_gap bare isGap atSeparator
      obtain ⟨rest, rfl, boundary, rfl⟩ := of_replaced_word bare isRun isWord stops.names atName
      have own := UseLine.cut leading spelled isMark isSeparator isName
        (stops_of_replaced_stops boundary stops)
      exact ⟨_, by simpa only [List.append_assoc] using own⟩

/-- An expanded line that opens a unit opened one before. -/
theorem unit_line_of_replaced (bare : table.Bare) {line : List Char} (ascii : IsAscii line)
    {statement : Statement UnitKind} (isUnit : UnitLine (table.replaced line) statement) :
    ∃ own, UnitLine line own := by
  have small := ascii_replaced bare ascii
  generalize expanded : table.replaced line = text at isUnit small
  cases isUnit with
  | @cut lead keyword gap name after kind leading spelled between nonempty isName stops ends =>
      simp only [IsAscii, List.forall_mem_append] at small
      obtain ⟨⟨-, keywordAscii, -⟩, nameAscii, -⟩ := small
      have isGap := gap_of_blanks between
      obtain ⟨isRun, isWord⟩ := is_run_name isName nameAscii
      have known : kind.name.toList ∈ unitKeywords := by
        cases kind <;> decide
      have separated : Stops isNameChar (gap ++ (name ++ after)) :=
        (stops_gap isGap).append (absurd · nonempty)
      simp only [List.append_assoc] at expanded
      obtain ⟨opened, rfl, atKeyword⟩ := of_replaced_gap bare (gap_of_blanks leading) expanded
      obtain ⟨named, rfl, atGap⟩ :=
        of_replaced_spelled bare known spelled keywordAscii separated atKeyword
      obtain ⟨own, rfl, atName⟩ := of_replaced_gap bare isGap atGap
      obtain ⟨rest, rfl, boundary, rfl⟩ := of_replaced_word bare isRun isWord stops.names atName
      have continues := stops_of_replaced_stops boundary stops
      have own := UnitLine.cut leading spelled between nonempty isName continues
        (ends_statement_of_replaced bare ends)
      exact ⟨_, by simpa only [List.append_assoc] using own⟩

end ReadBack

/-! Expanded lines. -/

section Emission

variable {table : MacroTable}

/-- What stands in an expanded line for the name of a unit. -/
def MacroTable.nameImage (table : MacroTable) (name : List Char) : List Char :=
  match table.value? (String.ofList name) with
  | some value => value.toList
  | none => name

theorem image_protected (name : List Char) :
    (Lexeme.word name).image table true = table.nameImage name := by
  unfold MacroTable.nameImage MacroTable.value?
  cases definition : table.get? (String.ofList name) with
  | none => simp [Lexeme.image, definition]
  | some value => cases value <;> simp [Lexeme.image, definition, MacroTable.substitution]

theorem name_image_bare (bare : table.Bare) (name : List Char) : table.nameImage name = name := by
  unfold MacroTable.nameImage MacroTable.value?
  cases definition : table.get? (String.ofList name) with
  | none => rfl
  | some value =>
      obtain rfl := bare _ value definition
      rfl

theorem expand_unprotected (text : List Char) :
    (table.expand (String.ofList text) none).toList = table.replaced text := by
  rw [MacroTable.expand_eq, MacroTable.expand_from_none, String.toList_ofList]
  rfl

theorem Placed.emit_line_eq {before name after : List Char}
    (placed : Placed table before name after) {line : Line}
    (whole : line.text.toList = before ++ (name ++ after))
    (span : unitNameSpan line.text =
      some ⟨byteLength before, byteLength before + byteLength name⟩) :
    (emitLine line table).text.toList =
      before ++ (table.nameImage name ++ table.replaced after) := by
  rw [text_emit_line, span, whole, placed.expand_from_eq, image_protected]

theorem emit_line_use (spares : table.SparesKeywords) {line : Line}
    (ascii : IsAscii line.text.toList) {statement : Statement Bool}
    (isUse : UseLine line.text.toList statement) :
    (emitLine line table).text.toList = statement.before ++
      (table.nameImage statement.name ++ table.replaced statement.after) := by
  have span := unit_name_span_eq_some.mpr (.inl ⟨statement, isUse, rfl⟩)
  exact (placed_use spares isUse ascii).emit_line_eq isUse.whole span

theorem emit_line_unit (spares : table.SparesKeywords) {line : Line}
    (ascii : IsAscii line.text.toList) {statement : Statement UnitKind}
    (isUnit : UnitLine line.text.toList statement) :
    (emitLine line table).text.toList = statement.before ++
      (table.nameImage statement.name ++ table.replaced statement.after) := by
  have span := unit_name_span_eq_some.mpr (.inr ⟨statement, isUnit, rfl⟩)
  exact (placed_unit spares isUnit ascii).emit_line_eq isUnit.whole span

theorem emit_line_no_statement {line : Line} (noUse : useStatement? line.text.toList = none)
    (noUnit : unitStatement? line.text.toList = none) :
    (emitLine line table).text.toList = table.replaced line.text.toList := by
  have span : unitNameSpan line.text = none := by
    simp only [unitNameSpan, noUse, noUnit]
    rfl
  rw [text_emit_line, span, MacroTable.expand_from_none]
  rfl

/-- Without values an expanded line says about units what it said before. -/
theorem content_emit_line (spares : table.SparesKeywords) (bare : table.Bare) {line : Line}
    (ascii : IsAscii line.text.toList) :
    useContent? (emitLine line table).text.toList = useContent? line.text.toList ∧
      unitContent? (emitLine line table).text.toList = unitContent? line.text.toList := by
  have noUnit {text : List Char} {statement : Statement Bool} (isUse : UseLine text statement) :
      unitContent? text = none := by
    unfold unitContent?
    cases unit : unitStatement? text with
    | none => rfl
    | some other => exact absurd (unit_statement?_eq_some.mp unit) (isUse.not_unit_line other)
  cases use : useStatement? line.text.toList with
  | some statement =>
      have isUse := use_statement?_eq_some.mp use
      have parts := emit_line_use spares ascii isUse
      rw [name_image_bare bare] at parts
      have follows : Stops isWordChar (table.replaced statement.after) :=
        MacroTable.stops_replaced isUse.stops (placed_use spares isUse ascii).stops
      have again := isUse.followed_by follows
      rw [← parts] at again
      constructor
      · rw [useContent?, useContent?, use, use_statement?_eq_some.mpr again]
        rfl
      · rw [noUnit again, noUnit isUse]
  | none =>
      cases unit : unitStatement? line.text.toList with
      | some statement =>
          have isUnit := unit_statement?_eq_some.mp unit
          have parts := emit_line_unit spares ascii isUnit
          rw [name_image_bare bare, replaced_ending isUnit.ends, ← isUnit.whole] at parts
          rw [parts]
          exact ⟨rfl, rfl⟩
      | none =>
          have parts : (emitLine line table).text.toList = _ := emit_line_no_statement use unit
          rw [parts]
          constructor
          · cases again : useStatement? (table.replaced line.text.toList) with
            | none => rw [useContent?, useContent?, again, use]
            | some statement =>
                obtain ⟨own, isUse⟩ :=
                  use_line_of_replaced bare ascii (use_statement?_eq_some.mp again)
                rw [use_statement?_eq_some.mpr isUse] at use
                cases use
          · cases again : unitStatement? (table.replaced line.text.toList) with
            | none => rw [unitContent?, unitContent?, again, unit]
            | some statement =>
                obtain ⟨own, isUnit⟩ :=
                  unit_line_of_replaced bare ascii (unit_statement?_eq_some.mp again)
                rw [unit_statement?_eq_some.mpr isUnit] at unit
                cases unit

end Emission

/-- In a line of ASCII the name of a unit gives way to a value only, what stands before it stays,
and in what follows all names are replaced. So names without values change neither the unit that
lines declare nor the modules that they use. -/
theorem bare_flags_never_change_unit_names (table : MacroTable) (spares : table.SparesKeywords) :
    (∀ (line : Line) (span : Span), IsAscii line.text.toList →
      unitNameSpan line.text = some span →
      ∃ before name after, line.text.toList = before ++ (name ++ after) ∧
        span = ⟨byteLength before, byteLength before + byteLength name⟩ ∧
        (emitLine line table).text.toList =
          before ++ ((match table.value? (String.ofList name) with
            | some value => value.toList
            | none => name) ++ (table.expand (String.ofList after) none).toList)) ∧
    (table.Bare → ∀ (file : Path) (lines : List Line),
      (∀ line ∈ lines, IsAscii line.text.toList) →
      findDeclaration (lines.map (emitLine · table)) = findDeclaration lines ∧
        findUses file (lines.map (emitLine · table)) = findUses file lines) := by
  constructor
  · intro line span ascii found
    rcases unit_name_span_eq_some.mp found with ⟨statement, isUse, rfl⟩ | ⟨statement, isUnit, rfl⟩
    · refine ⟨statement.before, statement.name, statement.after, isUse.whole, rfl, ?_⟩
      rw [expand_unprotected]
      exact emit_line_use spares ascii isUse
    · refine ⟨statement.before, statement.name, statement.after, isUnit.whole, rfl, ?_⟩
      rw [expand_unprotected]
      exact emit_line_unit spares ascii isUnit
  · intro bare file lines ascii
    unfold findDeclaration findUses
    rw [List.filterMap_map, List.filterMap_map]
    constructor
    · have same : lines.filterMap (declaredUnit? ∘ (emitLine · table)) =
          lines.filterMap declaredUnit? := by
        apply List.filterMap_congr
        intro line member
        rw [Function.comp_apply, declared_unit?_eq, declared_unit?_eq,
          (content_emit_line spares bare (ascii line member)).2]
      rw [same]
    · have same : lines.filterMap (usedModule? file ∘ (emitLine · table)) =
          lines.filterMap (usedModule? file) := by
        apply List.filterMap_congr
        intro line member
        rw [Function.comp_apply, used_module?_eq, used_module?_eq,
          (content_emit_line spares bare (ascii line member)).1]
        rfl
      rw [same]

/-! A table with a value and a flag, and one with the name of a module as a flag. -/

def linkTable : MacroTable := ⟨[("COMM", some "comm_mpi"), ("MPI", none)], by decide⟩

def gridTable : MacroTable := ⟨[("grid", none)], by decide⟩

def gridLines : List Line :=
  [⟨"module grid_user", ⟨"a.F90", 1⟩⟩, ⟨"use grid, only: grid ! grid", ⟨"a.F90", 2⟩⟩,
    ⟨"x = grid", ⟨"a.F90", 3⟩⟩]

/-- The value is put in the place of the name, the flag is not, and behind the name both are. -/
theorem grid_flag_keeps_grid :
    (linkTable.SparesKeywords ∧ unitNameSpan "use COMM, only: MPI" = some ⟨4, 8⟩ ∧
      ∃ before name after, "use COMM, only: MPI".toList = before ++ (name ++ after) ∧
        (⟨4, 8⟩ : Span) = ⟨byteLength before, byteLength before + byteLength name⟩ ∧
        "use comm_mpi, only: 1".toList =
          before ++ ((match linkTable.value? (String.ofList name) with
            | some value => value.toList
            | none => name) ++ (linkTable.expand (String.ofList after) none).toList)) ∧
    gridTable.Bare ∧
      gridLines.map (emitLine · gridTable) =
        [⟨"module grid_user", ⟨"a.F90", 1⟩⟩, ⟨"use grid, only: 1 ! grid", ⟨"a.F90", 2⟩⟩,
          ⟨"x = 1", ⟨"a.F90", 3⟩⟩] ∧
      findDeclaration (gridLines.map (emitLine · gridTable)) = .one .moduleUnit "grid_user" ∧
      findUses ⟨"a.F90"⟩ (gridLines.map (emitLine · gridTable)) =
        [⟨⟨"a.F90"⟩, "grid", false, 2⟩] := by
  have span : unitNameSpan "use COMM, only: MPI" = some ⟨4, 8⟩ := by cbv
  have emitted : emitLine ⟨"use COMM, only: MPI", ⟨"a.F90", 1⟩⟩ linkTable =
      ⟨"use comm_mpi, only: 1", ⟨"a.F90", 1⟩⟩ := by
    cbv
  have lineAscii : IsAscii "use COMM, only: MPI".toList := by simp [IsAscii]
  have linkSpares : linkTable.SparesKeywords := MacroTable.spares_of_entries (by decide)
  have spares : gridTable.SparesKeywords := MacroTable.spares_of_entries (by decide)
  have bare : gridTable.Bare := MacroTable.bare_of_entries (by decide)
  have ascii : ∀ line ∈ gridLines, IsAscii line.text.toList := by
    have small : gridLines.all (fun line => line.text.toList.all (·.toNat < 0x80)) = true := by
      cbv
    simpa [IsAscii] using small
  have parts := (bare_flags_never_change_unit_names linkTable linkSpares).1
    ⟨"use COMM, only: MPI", ⟨"a.F90", 1⟩⟩ ⟨4, 8⟩ lineAscii span
  rw [emitted] at parts
  obtain ⟨declaration, uses⟩ :=
    (bare_flags_never_change_unit_names gridTable spares).2 bare ⟨"a.F90"⟩ gridLines ascii
  refine ⟨⟨linkSpares, span, parts⟩, bare, by cbv, ?_, ?_⟩
  · rw [declaration]
    cbv
  · rw [uses]
    cbv

end FortranDeps.Preprocess

import FortranDeps.Proofs.Loop
import FortranDeps.Proofs.Preprocess.Tokens
import FortranDeps.Proofs.Text.Utf8

/-!
The replacement of names by a scan over the bytes of a line. The scan decides by the byte at its
offset what it copies, finds the end of it among the bytes, and takes slices of the line between
offsets. None of its slices begins or ends inside a character, and what it writes is the expansion.
-/

namespace FortranDeps.Preprocess

open Text

/-- A scan of a line: the offset of the next byte and the text written so far. -/
structure ByteScan where
  offset : Nat
  written : List Char

namespace ByteScan

/-- The offset behind the name characters from an offset on. -/
def wordStop (bytes : List UInt8) (start : Nat) : Nat :=
  start + ((bytes.drop start).takeWhile fun byte => isNameChar (asChar byte)).length

/-- Writes the line up to an offset, and goes on from there. -/
def copy (line : List Char) (scan : ByteScan) (stop : Nat) : Option (List Char) ⊕ ByteScan :=
  match slice? line scan.offset stop with
  | none => .inl none
  | some text => .inr ⟨stop, scan.written ++ text⟩

/-- Writes what stands for a word, and goes on behind it. -/
def copyWord (table : MacroTable) (keep : Option Span) (line : List Char) (scan : ByteScan)
    (stop : Nat) : Option (List Char) ⊕ ByteScan :=
  match slice? line scan.offset stop with
  | none => .inl none
  | some word =>
      let isProtected := keep.any (·.covers scan.offset stop)
      match table.get? (String.ofList word) with
      | some value =>
          if !isProtected || value.isSome then
            .inr ⟨stop, scan.written ++ (MacroTable.substitution value).toList⟩
          else .inr ⟨stop, scan.written ++ word⟩
      | none => .inr ⟨stop, scan.written ++ word⟩

/-- One turn of the scan. It ends with the text that is written, or with none at a slice that would
begin or end inside a character. -/
def turn (table : MacroTable) (keep : Option Span) (line : List Char) (scan : ByteScan) :
    Option (List Char) ⊕ ByteScan :=
  match (utf8 line)[scan.offset]? with
  | none => .inl (some scan.written)
  | some byte =>
      if asChar byte = '\'' ∨ asChar byte = '"' then
        match behind? line (scan.offset + 1) with
        | none => .inl none
        | some rest =>
            match find? (asChar byte) rest with
            | some found => copy line scan (scan.offset + 1 + found + 1)
            | none => copy line scan (utf8 line).length
      else if asChar byte = '!' then
        .inl ((behind? line scan.offset).map (scan.written ++ ·))
      else if (asChar byte).isAlpha ∨ asChar byte = '_' then
        copyWord table keep line scan (wordStop (utf8 line) scan.offset)
      else if (asChar byte).isDigit then copy line scan (wordStop (utf8 line) scan.offset)
      else
        match behind? line scan.offset with
        | none => .inl none
        | some rest => copy line scan (scan.offset + (rest.head?.map Char.utf8Size).getD 1)

/-! What the scan sees of a line at an offset between two characters. -/

/-- A byte tells what the character that it begins does to the scan. -/
structure Shows (byte : UInt8) (c : Char) : Prop where
  quote : IsQuote (asChar byte) ↔ IsQuote c
  mark : asChar byte = '!' ↔ c = '!'
  name : isNameChar (asChar byte) = isNameChar c
  ascii : c.toNat < 0x80 → asChar byte = c

theorem exists_shows (front : List Char) (c : Char) (rest : List Char) :
    ∃ byte, (utf8 (front ++ c :: rest))[byteLength front]? = some byte ∧ Shows byte c := by
  obtain ⟨lead, others, encoded, same⟩ := exists_lead c
  refine ⟨lead, ?_, ?_⟩
  · rw [get_elem?_utf8, utf8_cons, encoded]
    rfl
  · have agrees : ∀ letter : Char, letter.toNat < 0x80 → (asChar lead = letter ↔ c = letter) := by
      intro letter small
      have tells := lead_agrees (· == letter) same (by simpa using small)
      simpa using congrArg (· = true) tells
    exact
      { quote := or_congr (agrees '\'' (by decide)) (agrees '"' (by decide))
        mark := agrees '!' (by decide)
        name := lead_agrees isNameChar same fun _ name => to_nat_of_is_name_char name
        ascii := fun small => (agrees c small).mpr rfl }

section Stops

variable (front : List Char) {run rest : List Char}

/-- The bytes of a run end where its characters do. -/
theorem word_stop_run (isRun : IsRun run) (stops : Stops isNameChar rest) :
    wordStop (utf8 (front ++ (run ++ rest))) (byteLength front) = byteLength (front ++ run) := by
  have ascii : IsAscii run := fun c member => to_nat_of_is_name_char (isRun.2 c member)
  have names : ∀ byte ∈ utf8 run, isNameChar (asChar byte) = true := by
    intro byte member
    apply isRun.2
    rw [← map_char_utf8 ascii]
    exact List.mem_map_of_mem member
  have ending : (utf8 rest).takeWhile (fun byte => isNameChar (asChar byte)) = [] := by
    cases rest with
    | nil => simp
    | cons next later =>
        obtain ⟨byte, first, shows⟩ := exists_shows [] next later
        rw [List.nil_append, byteLength, ← List.head?_eq_getElem?] at first
        obtain ⟨others, bytes⟩ := List.head?_eq_some_iff.mp first
        have noName := shows.name.trans (stops next rfl)
        rw [bytes, List.takeWhile_cons_of_neg (by simp [noName])]
  rw [wordStop, drop_utf8, utf8_append, List.takeWhile_append_of_pos names, ending,
    List.append_nil, length_utf8, byte_length_append]

theorem find?_inner {quote : Char} {inner : List Char} (absent : quote ∉ inner) :
    find? quote (inner ++ quote :: rest) = some (byteLength inner) := by
  have others : ∀ c ∈ inner, decide (c ≠ quote) = true := by
    intro c member
    apply decide_eq_true
    rintro rfl
    exact absent member
  have stops : Stops (fun c => decide (c ≠ quote)) (quote :: rest) := stops_cons (by simp) rest
  rw [find?, if_pos (by simp), take_while_run others stops]

end Stops

/-! What a turn does to a line that goes on with a token. -/

section Turns

variable (table : MacroTable) (keep : Option Span) (front written : List Char)
variable {quote c : Char} {inner run rest : List Char}

theorem copy_middle (middle back : List Char) :
    copy (front ++ (middle ++ back)) ⟨byteLength front, written⟩ (byteLength (front ++ middle)) =
      .inr ⟨byteLength (front ++ middle), written ++ middle⟩ := by
  rw [copy, byte_length_append, slice?_byte_length]

theorem turn_end : turn table keep front ⟨byteLength front, written⟩ = .inl (some written) := by
  have ended : (utf8 front)[byteLength front]? = none := by simp
  rw [turn, ended]

theorem size_of_is_quote (isQuote : IsQuote quote) : quote.utf8Size = 1 := by
  rcases isQuote with rfl | rfl <;> rfl

theorem turn_quote (isQuote : IsQuote quote) :
    turn table keep (front ++ quote :: rest) ⟨byteLength front, written⟩ =
      match find? quote rest with
      | some found => copy (front ++ quote :: rest) ⟨byteLength front, written⟩
          (byteLength front + 1 + found + 1)
      | none => copy (front ++ quote :: rest) ⟨byteLength front, written⟩
          (byteLength (front ++ quote :: rest)) := by
  obtain ⟨byte, found, shows⟩ := exists_shows front quote rest
  have same : asChar byte = quote := shows.ascii (by rcases isQuote with rfl | rfl <;> decide)
  have next : behind? (front ++ quote :: rest) (byteLength front + 1) = some rest := by
    have behind := behind?_byte_length (front ++ [quote]) rest
    rwa [List.append_assoc, byte_length_append, byteLength, byteLength, size_of_is_quote isQuote]
      at behind
  unfold IsQuote at isQuote
  simp only [turn, found, same, if_pos isQuote, next, length_utf8]

theorem turn_unclosed (isQuote : IsQuote quote) (absent : quote ∉ rest) :
    turn table keep (front ++ quote :: rest) ⟨byteLength front, written⟩ =
      .inr ⟨byteLength (front ++ quote :: rest), written ++ quote :: rest⟩ := by
  have whole := copy_middle front written (quote :: rest) []
  rw [List.append_nil] at whole
  rw [turn_quote table keep front written isQuote, find?, if_neg absent]
  exact whole

theorem turn_literal (rest : List Char) (isQuote : IsQuote quote) (absent : quote ∉ inner) :
    turn table keep (front ++ quote :: (inner ++ quote :: rest)) ⟨byteLength front, written⟩ =
      .inr ⟨byteLength (front ++ (quote :: inner ++ [quote])),
        written ++ (quote :: inner ++ [quote])⟩ := by
  have whole := copy_middle front written (quote :: inner ++ [quote]) rest
  have stop : byteLength (front ++ (quote :: inner ++ [quote])) =
      byteLength front + 1 + byteLength inner + 1 := by
    simp only [byte_length_append, byteLength, List.cons_append, size_of_is_quote isQuote]
    omega
  rw [turn_quote table keep front written isQuote, find?_inner absent]
  change copy _ _ (byteLength front + 1 + byteLength inner + 1) = _
  rw [← stop]
  simpa using whole

theorem turn_comment (rest : List Char) :
    turn table keep (front ++ '!' :: rest) ⟨byteLength front, written⟩ =
      .inl (some (written ++ '!' :: rest)) := by
  obtain ⟨byte, found, shows⟩ := exists_shows front '!' rest
  have same : asChar byte = '!' := shows.ascii (by decide)
  have noQuote : ¬ ('!' = '\'' ∨ '!' = '"') := by decide
  simp only [turn, found, same, if_neg noQuote, if_true, behind?_byte_length, Option.map_some]

theorem copy_word_middle (run back : List Char) :
    copyWord table keep (front ++ (run ++ back)) ⟨byteLength front, written⟩
        (byteLength (front ++ run)) =
      .inr ⟨byteLength (front ++ run), written ++ (Lexeme.word run).image table
        (keep.any (·.covers (byteLength front) (byteLength (front ++ run))))⟩ := by
  simp only [copyWord, byte_length_append, slice?_byte_length, Lexeme.image]
  cases table.get? (String.ofList run) with
  | none => rfl
  | some value =>
      cases keep.any (·.covers (byteLength front) (byteLength front + byteLength run)) <;>
        cases value <;> rfl

theorem turn_run (isRun : IsRun run) (stops : Stops isNameChar rest) :
    turn table keep (front ++ (run ++ rest)) ⟨byteLength front, written⟩ =
      .inr ⟨byteLength (front ++ run), written ++ (Lexeme.ofRun run).image table
        (keep.any (·.covers (byteLength front) (byteLength (front ++ run))))⟩ := by
  have stop := word_stop_run front isRun stops
  have word := copy_word_middle table keep front written run rest
  have number := copy_middle front written run rest
  cases run with
  | nil => exact absurd rfl isRun.1
  | cons first others =>
      have name := isRun.2 first List.mem_cons_self
      obtain ⟨noQuote, noComment⟩ := open_of_names isRun.2 first List.mem_cons_self
      obtain ⟨byte, found, shows⟩ := exists_shows front first (others ++ rest)
      have same : asChar byte = first := shows.ascii (to_nat_of_is_name_char name)
      rw [List.cons_append] at stop word number ⊢
      unfold IsQuote at noQuote
      simp only [turn, found, same, if_neg noQuote, if_neg noComment, stop]
      cases digit : first.isDigit with
      | true =>
          have noLetter : ¬ (first.isAlpha = true ∨ first = '_') := by
            rw [← Lexeme.is_digit_eq_false_iff name, digit]
            decide
          rw [if_neg noLetter, if_pos rfl, number, Lexeme.of_run_of_digit digit]
          rfl
      | false =>
          have letter := (Lexeme.is_digit_eq_false_iff name).mp digit
          rw [if_pos letter, word, Lexeme.of_run_of_letter name letter]

theorem turn_other (rest : List Char) (opened : ¬ IsQuote c ∧ c ≠ '!')
    (noName : isNameChar c = false) :
    turn table keep (front ++ c :: rest) ⟨byteLength front, written⟩ =
      .inr ⟨byteLength (front ++ [c]), written ++ [c]⟩ := by
  have single := copy_middle front written [c] rest
  obtain ⟨byte, found, shows⟩ := exists_shows front c rest
  have noQuote := fun isQuote => opened.1 (shows.quote.mp isQuote)
  have noComment := fun isMark => opened.2 (shows.mark.mp isMark)
  have outside := shows.name.trans noName
  have noLetter : ¬ ((asChar byte).isAlpha = true ∨ asChar byte = '_') := by
    simp only [isNameChar, Char.isAlphanum, Bool.or_eq_false_iff, beq_eq_false_iff_ne] at outside
    simp [outside]
  have noDigit : ¬ (asChar byte).isDigit = true := by
    simp only [isNameChar, Char.isAlphanum, Bool.or_eq_false_iff] at outside
    simp [outside]
  have width : byteLength front + c.utf8Size = byteLength (front ++ [c]) := by
    simp [byte_length_append, byteLength]
  unfold IsQuote at noQuote
  simp only [turn, found, if_neg noQuote, if_neg noComment, if_neg noLetter, if_neg noDigit,
    behind?_byte_length, List.head?_cons, Option.map_some, Option.getD_some, width]
  exact single

end Turns

/-! The whole scan. -/

section Whole

variable (table : MacroTable) (keep : Option Span)

/-- The scan that stands before a text ends with the expansion of the text added. -/
def Expands (front written rest : List Char) (lexemes : List Lexeme) : Prop :=
  Loop.Ends (turn table keep (front ++ rest)) ⟨byteLength front, written⟩
    (some (written ++ table.expandFrom keep (byteLength front) lexemes))

variable {table keep}

/-- After the image of a token the scan stands before what follows it. -/
theorem Expands.token (lexeme : Lexeme) (rest : List Char) {front written : List Char}
    {lexemes : List Lexeme}
    (turns : turn table keep (front ++ (lexeme.text ++ rest)) ⟨byteLength front, written⟩ =
      .inr ⟨byteLength (front ++ lexeme.text), written ++ lexeme.image table
        (keep.any (·.covers (byteLength front) (byteLength (front ++ lexeme.text))))⟩)
    (later : ∀ front written, Expands table keep front written rest lexemes) :
    Expands table keep front written (lexeme.text ++ rest) (lexeme :: lexemes) := by
  have following := later (front ++ lexeme.text) (written ++ lexeme.image table
    (keep.any (·.covers (byteLength front) (byteLength (front ++ lexeme.text)))))
  unfold Expands at following ⊢
  rw [List.append_assoc front] at following
  rw [MacroTable.expandFrom, ← List.append_assoc written, ← byte_length_append]
  exact Loop.Turns.ends turns following

theorem expands_split (front written rest : List Char) :
    Expands table keep front written rest (Lexeme.split rest) := by
  induction rest using Lexeme.line_induction generalizing front written with
  | nil =>
      have ended := turn_end table keep front written
      rw [Lexeme.split, Expands, MacroTable.expandFrom, List.append_nil, List.append_nil]
      exact Loop.ends_of_turn ended
  | unclosed quote rest isQuote absent =>
      have turns := turn_unclosed table keep front written isQuote absent
      have ended := turn_end table keep (front ++ quote :: rest) (written ++ quote :: rest)
      have ends := Loop.Turns.ends turns (Loop.ends_of_turn ended)
      rw [Lexeme.split_unclosed isQuote absent]
      simpa [Expands, MacroTable.expandFrom, Lexeme.image, Lexeme.text] using ends
  | literal quote inner rest isQuote absent induction =>
      have turns := turn_literal table keep front written rest isQuote absent
      have token := Expands.token (.literal (quote :: inner ++ [quote])) rest
        (by simpa [Lexeme.image, Lexeme.text] using turns) induction
      rw [Lexeme.split_literal isQuote absent]
      simpa [Lexeme.text] using token
  | comment rest =>
      have ends := Loop.ends_of_turn (turn_comment table keep front written rest)
      rw [Lexeme.split_comment]
      simpa [Expands, MacroTable.expandFrom, Lexeme.image, Lexeme.text] using ends
  | run run rest isRun stops induction =>
      have turns := turn_run table keep front written isRun stops
      have token := Expands.token (.ofRun run) rest
        (by simpa using turns) induction
      rw [Lexeme.split_run isRun stops]
      simpa using token
  | other c rest opened noName induction =>
      have turns := turn_other table keep front written rest opened noName
      have token := Expands.token (.other c) rest
        (by simpa [Lexeme.image, Lexeme.text] using turns) induction
      rw [Lexeme.split_other opened noName]
      exact token

/-- The scan of a line ends with its expansion. -/
theorem ends_iff (table : MacroTable) (line : String) (keep : Option Span)
    (result : Option (List Char)) :
    Loop.Ends (turn table keep line.toList) ⟨0, []⟩ result ↔
      result = some (table.expand line keep).toList := by
  have ends : Loop.Ends (turn table keep line.toList) ⟨0, []⟩
      (some (table.expand line keep).toList) := by
    rw [MacroTable.expand_eq]
    change Expands table keep [] [] line.toList (Lexeme.split line.toList)
    exact expands_split [] [] line.toList
  exact ends.iff_eq result

end Whole

end ByteScan

namespace MacroTable

/-- Expansion is one pass over the tokens of a line, and the scan over its bytes that never cuts a
character computes it. -/
theorem expansion_is_one_pass_over_tokens (table : MacroTable) (line : String)
    (keep : Option Span) :
    (∀ result, Loop.Ends (ByteScan.turn table keep line.toList) ⟨0, []⟩ result ↔
      result = some (table.expand line keep).toList) ∧
    (∃! lexemes, Lexeme.Tokenises line.toList lexemes) ∧
    (∀ lexemes, Lexeme.Tokenises line.toList lexemes →
      ∃ images : List (List Char),
        (table.expand line keep).toList = images.flatten ∧
        images.length = lexemes.length ∧
        ∀ before lexeme after, lexemes = before ++ lexeme :: after →
          ∃ image, images[before.length]? = some image ∧
            table.Replaces (Encloses keep (before.flatMap Lexeme.text) lexeme.text)
              lexeme image) ∧
    (table.isEmpty = true → table.expand line keep = line) := by
  refine ⟨ByteScan.ends_iff table line keep, ?_, ?_, ?_⟩
  · refine ⟨Lexeme.split line.toList, Lexeme.tokenises_split _, ?_⟩
    intro lexemes tokenises
    exact Lexeme.tokenises_iff.mp tokenises
  · intro lexemes tokenises
    rw [Lexeme.tokenises_iff.mp tokenises, expand_eq]
    simpa [byteLength] using exists_images keep [] (Lexeme.split line.toList)
  · intro empty
    exact if_pos empty

end MacroTable

end FortranDeps.Preprocess

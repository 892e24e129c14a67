import FortranDeps.Proofs.Preprocess.Lexemes

/-!
The tokens of a line, told without the reader that finds them. What a token is depends on its own
text and on what follows it: a name must not go on, a literal without its closing quote and a
comment leave nothing behind. There is one way to cut a line into such tokens, and expansion puts
the images of the tokens one after another.
-/

namespace FortranDeps.Preprocess

open Text

namespace Lexeme

/-- Whether a lexeme is the token that a line begins with when the given text follows it. -/
inductive Leads : Lexeme → List Char → Prop where
  | closed {quote : Char} {inner : List Char} (rest : List Char) :
      IsQuote quote → quote ∉ inner → Leads (literal (quote :: inner ++ [quote])) rest
  | unclosed {quote : Char} {inner : List Char} :
      IsQuote quote → quote ∉ inner → Leads (literal (quote :: inner)) []
  | comment (tail : List Char) : Leads (comment ('!' :: tail)) []
  | word {run rest : List Char} :
      IsRun run → (∀ first ∈ run.head?, first.isAlpha = true ∨ first = '_') →
      Stops isNameChar rest → Leads (word run) rest
  | number {run rest : List Char} :
      IsRun run → (∀ first ∈ run.head?, first.isDigit = true) →
      Stops isNameChar rest → Leads (number run) rest
  | other {c : Char} (rest : List Char) :
      ¬ IsQuote c → c ≠ '!' → isNameChar c = false → Leads (other c) rest

/-- A line is cut into tokens from left to right. -/
inductive Tokenises : List Char → List Lexeme → Prop where
  | nil : Tokenises [] []
  | cons {lexeme : Lexeme} {rest : List Char} {lexemes : List Lexeme} :
      lexeme.Leads rest → Tokenises rest lexemes →
      Tokenises (lexeme.text ++ rest) (lexeme :: lexemes)

/-! The reader finds the tokens of a line, and no other cut is one into tokens. -/

theorem is_digit_eq_false_iff {c : Char} (name : isNameChar c = true) :
    c.isDigit = false ↔ c.isAlpha = true ∨ c = '_' := by
  have kinds : isNameChar c = true → (c.isDigit = false ↔ c.isAlpha = true ∨ c = '_') :=
    ascii_cases (to_nat_of_is_name_char name) (by decide)
  exact kinds name

theorem of_run_of_letter {first : Char} {others : List Char}
    (name : isNameChar first = true) (start : first.isAlpha = true ∨ first = '_') :
    ofRun (first :: others) = word (first :: others) := by
  have letter := (is_digit_eq_false_iff name).mpr start
  simp [ofRun, letter]

theorem of_run_of_digit {first : Char} {others : List Char} (digit : first.isDigit = true) :
    ofRun (first :: others) = number (first :: others) := by
  simp [ofRun, digit]

theorem leads_of_run {run rest : List Char} (isRun : IsRun run) (stops : Stops isNameChar rest) :
    (ofRun run).Leads rest := by
  cases run with
  | nil => exact absurd rfl isRun.1
  | cons first others =>
      have name := isRun.2 first List.mem_cons_self
      cases digit : first.isDigit with
      | true =>
          rw [of_run_of_digit digit]
          exact .number isRun (by simp [digit]) stops
      | false =>
          have start := (is_digit_eq_false_iff name).mp digit
          rw [of_run_of_letter name start]
          exact .word isRun (by simpa using start) stops

theorem tokenises_split (line : List Char) : Tokenises line (split line) := by
  induction line using line_induction with
  | nil =>
      rw [split]
      exact .nil
  | unclosed quote rest isQuote absent =>
      rw [split_unclosed isQuote absent]
      simpa [text] using Tokenises.cons (.unclosed isQuote absent) .nil
  | literal quote inner rest isQuote absent induction =>
      rw [split_literal isQuote absent]
      simpa [text] using Tokenises.cons (.closed rest isQuote absent) induction
  | comment rest =>
      rw [split_comment]
      simpa [text] using Tokenises.cons (.comment rest) .nil
  | run run rest isRun stops induction =>
      rw [split_run isRun stops]
      simpa using Tokenises.cons (leads_of_run isRun stops) induction
  | other c rest opened noName induction =>
      rw [split_other opened noName]
      exact .cons (.other rest opened.1 opened.2 noName) induction

/-- The reader takes a token off the line that begins with it. -/
theorem Leads.split_eq {lexeme : Lexeme} {rest : List Char} (leads : lexeme.Leads rest) :
    split (lexeme.text ++ rest) = lexeme :: split rest := by
  cases leads with
  | closed rest isQuote absent => simpa [text] using split_literal isQuote absent
  | unclosed isQuote absent =>
      rw [text, List.append_nil, split_unclosed isQuote absent, split]
  | comment tail => rw [text, List.append_nil, split_comment, split]
  | @word run rest isRun start stops =>
      rw [text, split_run isRun stops]
      cases run with
      | nil => exact absurd rfl isRun.1
      | cons first others =>
          have name := isRun.2 first List.mem_cons_self
          rw [of_run_of_letter name (start first rfl)]
  | @number run rest isRun start stops =>
      rw [text, split_run isRun stops]
      cases run with
      | nil => exact absurd rfl isRun.1
      | cons first others => rw [of_run_of_digit (start first rfl)]
  | other rest noQuote noComment noName => exact split_other ⟨noQuote, noComment⟩ noName

theorem tokenises_iff {line : List Char} {lexemes : List Lexeme} :
    Tokenises line lexemes ↔ lexemes = split line := by
  constructor
  · intro tokenises
    induction tokenises with
    | nil => rw [split]
    | cons leads _ induction => rw [leads.split_eq, induction]
  · rintro rfl
    exact tokenises_split line

example : Tokenises "n_1=2d0*N!N".toList
    [.word "n_1".toList, .other '=', .number "2d0".toList, .other '*', .word "N".toList,
      .comment "!N".toList] :=
  tokenises_iff.mpr (by cbv)

end Lexeme

/-! What becomes of a token. -/

namespace MacroTable

variable (table : MacroTable)

/-- What a token is replaced by, given whether it lies in the kept span. -/
inductive Replaces (kept : Prop) : Lexeme → List Char → Prop where
  | substituted {name : List Char} {value : Option String} :
      table.get? (String.ofList name) = some value → (kept → value ≠ none) →
      Replaces kept (.word name) (substitution value).toList
  | kept {name : List Char} :
      table.get? (String.ofList name) = some none → kept → Replaces kept (.word name) name
  | undefined {name : List Char} :
      table.get? (String.ofList name) = none → Replaces kept (.word name) name
  | copied {lexeme : Lexeme} :
      (∀ name, lexeme ≠ .word name) → Replaces kept lexeme lexeme.text

/-- A span contains a text that stands behind another one. -/
def Encloses (keep : Option Span) (before text : List Char) : Prop :=
  ∃ span, keep = some span ∧ span.start ≤ byteLength before ∧
    byteLength before + byteLength text ≤ span.stop

variable {table}

theorem covers_iff {keep : Option Span} {before text : List Char} :
    keep.any (·.covers (byteLength before) (byteLength before + byteLength text)) = true ↔
      Encloses keep before text := by
  cases keep <;> simp [Encloses, Span.covers]

theorem replaces_image {kept : Prop} {isProtected : Bool} (same : isProtected = true ↔ kept)
    (lexeme : Lexeme) : table.Replaces kept lexeme (lexeme.image table isProtected) := by
  cases lexeme with
  | word name =>
      cases definition : table.get? (String.ofList name) with
      | none =>
          simp only [Lexeme.image, definition]
          exact .undefined definition
      | some value =>
          simp only [Lexeme.image, definition, Bool.and_eq_true, Option.isNone_iff_eq_none]
          split
          · next unvalued =>
              obtain ⟨own, rfl⟩ := unvalued
              exact .kept definition (same.mp own)
          · next valued =>
              refine .substituted definition ?_
              rintro inside rfl
              exact valued ⟨same.mpr inside, rfl⟩
  | literal | comment | number | other => exact .copied (by simp)

/-- The expansion of lexemes puts the images of all of them one after another. -/
theorem exists_images (keep : Option Span) (lead : List Char) (lexemes : List Lexeme) :
    ∃ images : List (List Char),
      table.expandFrom keep (byteLength lead) lexemes = images.flatten ∧
      images.length = lexemes.length ∧
      ∀ before lexeme after, lexemes = before ++ lexeme :: after →
        ∃ image, images[before.length]? = some image ∧
          table.Replaces (Encloses keep (lead ++ before.flatMap Lexeme.text) lexeme.text)
            lexeme image := by
  induction lexemes generalizing lead with
  | nil => exact ⟨[], rfl, rfl, by simp⟩
  | cons lexeme rest induction =>
      obtain ⟨images, whole, many, each⟩ := induction (lead ++ lexeme.text)
      rw [byte_length_append] at whole
      let stop := byteLength lead + byteLength lexeme.text
      let isProtected := keep.any (·.covers (byteLength lead) stop)
      refine ⟨lexeme.image table isProtected :: images, ?_, congrArg (· + 1) many, ?_⟩
      · exact congrArg (_ ++ ·) whole
      · intro before own after cut
        cases before with
        | nil =>
            cases cut
            refine ⟨_, rfl, replaces_image ?_ lexeme⟩
            rw [List.flatMap_nil, List.append_nil]
            exact covers_iff
        | cons first others =>
            obtain ⟨rfl, later⟩ := List.cons.inj cut
            obtain ⟨image, found, replaces⟩ := each others own after later
            refine ⟨image, found, ?_⟩
            rwa [List.flatMap_cons, ← List.append_assoc]

end MacroTable

end FortranDeps.Preprocess

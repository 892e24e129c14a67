import FortranDeps.Preprocess.MacroTable
import FortranDeps.Text.Split

/-!
Replacement of defined names in a line. The line is cut into lexemes once, from left to
right, and only words are replaced: string literals, a trailing comment and numbers stay
as they are, and replaced text is not looked at again.
-/

namespace FortranDeps.Preprocess

inductive Lexeme where
  /-- A string literal with its quotes; one that is never closed runs to the end. -/
  | literal (text : List Char)
  /-- Everything from an exclamation mark on. -/
  | comment (text : List Char)
  | word (text : List Char)
  /-- A run of name characters that starts with a digit, such as a number with its kind. -/
  | number (text : List Char)
  | other (c : Char)
  deriving DecidableEq, Repr

namespace Lexeme

def text : Lexeme → List Char
  | literal text | comment text | word text | number text => text
  | other c => [c]

/-- The lexemes of a line. Quotes, names and numbers extend as far as they can. -/
def split : List Char → List Lexeme
  | [] => []
  | c :: rest =>
      if c = '\'' ∨ c = '"' then
        match _closed : rest.dropWhile (· ≠ c) with
        | [] => [literal (c :: rest)]
        | close :: after => literal (c :: rest.takeWhile (· ≠ c) ++ [close]) :: split after
      else if c = '!' then [comment (c :: rest)]
      else if Text.isNameChar c then
        let run := c :: rest.takeWhile Text.isNameChar
        (if c.isDigit then number run else word run) :: split (rest.dropWhile Text.isNameChar)
      else other c :: split rest
termination_by line => line.length
decreasing_by
  · have shorter := (List.dropWhile_sublist (l := rest) (· ≠ c)).length_le
    simp only [_closed, List.length_cons] at shorter ⊢
    omega
  · have shorter := (List.dropWhile_sublist (l := rest) Text.isNameChar).length_le
    simp only [List.length_cons]
    omega
  · simp

/-- What a lexeme becomes. A protected word is replaced only by a macro with a value. -/
def image (table : MacroTable) (isProtected : Bool) : Lexeme → List Char
  | word text =>
      match table.get? (String.ofList text) with
      | some value =>
          if isProtected && value.isNone then text else (MacroTable.substitution value).toList
      | none => text
  | lexeme => lexeme.text

end Lexeme

/-- A range of bytes in a line, the end not included. -/
structure Span where
  start : Nat
  stop : Nat
  deriving DecidableEq, Repr

/-- Whether a span contains the bytes from one offset up to another. -/
def Span.covers (span : Span) (start stop : Nat) : Bool := span.start ≤ start && stop ≤ span.stop

namespace MacroTable

/-- The images of lexemes that follow each other from a byte offset on. -/
def expandFrom (table : MacroTable) (keep : Option Span) : Nat → List Lexeme → List Char
  | _, [] => []
  | offset, lexeme :: rest =>
      let stop := offset + Text.byteLength lexeme.text
      lexeme.image table (keep.any (·.covers offset stop)) ++ expandFrom table keep stop rest

/-- Replaces the defined names of a line. Names inside the kept span are replaced only if
they are defined with a value, so a bare flag never changes the name of a unit. -/
def expand (table : MacroTable) (line : String) (keep : Option Span) : String :=
  if table.isEmpty then line
  else String.ofList (table.expandFrom keep 0 (Lexeme.split line.toList))

end MacroTable

end FortranDeps.Preprocess

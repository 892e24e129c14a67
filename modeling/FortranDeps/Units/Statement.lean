import FortranDeps.Preprocess.Expansion
import FortranDeps.Text.LowerCase

/-!
The two statements that matter for dependencies: the one that opens a module or a
program, and the one that uses a module. Letter case does not matter in them, in the
sense of Unicode simple case folding: beside the two cases of a letter, the long s
counts as an s and the kelvin sign as a k.
-/

namespace FortranDeps.Units

open Preprocess (Span)

inductive UnitKind where
  | moduleUnit
  | mainProgram
  deriving DecidableEq, Repr

def UnitKind.name : UnitKind → String
  | moduleUnit => "module"
  | mainProgram => "program"

/-- The ASCII letter that a character stands for when case is ignored. -/
def folded (c : Char) : Char :=
  if c.toNat = 0x17F then 's' else if c.toNat = 0x212A then 'k' else c.toLower

/-- Reads a keyword of lower-case letters; gives the characters read and the rest. -/
def readKeyword (keyword : List Char) (text : List Char) : Option (List Char × List Char) :=
  let word := text.take keyword.length
  if word.map folded = keyword then some (word, text.drop keyword.length) else none

/-- Reads at least one blank, and all that follow. -/
def readBlanks (text : List Char) : Option (List Char) :=
  match text with
  | c :: rest => if Text.isBlank c then some (Text.trimStart rest) else none
  | [] => none

/-- Reads a name: a letter or underscore, and all word characters that follow. -/
def readName (text : List Char) : Option (List Char × List Char) :=
  match text with
  | c :: rest =>
      if Text.isNameStart (folded c) then
        some (c :: rest.takeWhile Text.isWordChar, rest.dropWhile Text.isWordChar)
      else none
  | [] => none

/-- A statement about a unit, with the characters before and after the unit's name. -/
structure Statement (Property : Type) where
  property : Property
  before : List Char
  name : List Char
  after : List Char

namespace Statement

variable {Property : Type}

/-- The bytes that the name takes in its line. -/
def nameSpan (statement : Statement Property) : Span :=
  let start := Text.byteLength statement.before
  ⟨start, start + Text.byteLength statement.name⟩

def unitName (statement : Statement Property) : String :=
  String.ofList (Text.lower statement.name)

/-- A statement whose name and remaining characters end the given line. -/
def ofEnd (line : List Char) (property : Property) (name after : List Char) :
    Statement Property :=
  ⟨property, line.take (line.length - (name.length + after.length)), name, after⟩

end Statement

/-- Reads the nature of a use, if there is one. -/
def readNature (text : List Char) : Option (Option (List Char) × List Char) :=
  match Text.trimStart text with
  | ',' :: rest => do
      let rest := Text.trimStart rest
      let (nature, rest) ←
        readKeyword "intrinsic".toList rest <|> readKeyword "non_intrinsic".toList rest
      return (some nature, rest)
  | _ => some (none, text)

/-- Reads what separates a use from the module's name: a double colon, or blanks. -/
def readSeparator (text : List Char) : Option (List Char) :=
  match Text.trimStart text with
  | ':' :: ':' :: rest => some (Text.trimStart rest)
  | _ => readBlanks text

/-- A use of a module. Its property is whether the module is marked as intrinsic, which
takes the plain letters of the keyword. -/
def useStatement? (line : List Char) : Option (Statement Bool) := do
  let (_, rest) ← readKeyword "use".toList (Text.trimStart line)
  let (nature, rest) ← readNature rest
  let rest ← readSeparator rest
  let (name, after) ← readName rest
  let intrinsic := nature.any fun nature => nature.map Char.toLower == "intrinsic".toList
  return .ofEnd line intrinsic name after

/-- Whether nothing but blanks and a comment on the same line follows. -/
def endsStatement (text : List Char) : Bool :=
  match Text.trimStart text with
  | [] => true
  | c :: comment => c == '!' && !comment.contains '\n'

/-- The statement that opens a module or a program; it stands alone on its line. -/
def unitStatement? (line : List Char) : Option (Statement UnitKind) := do
  let body := Text.trimStart line
  let (kind, rest) ←
    ((readKeyword "module".toList body).map fun found => (UnitKind.moduleUnit, found.2)) <|>
    ((readKeyword "program".toList body).map fun found => (UnitKind.mainProgram, found.2))
  let rest ← readBlanks rest
  let (name, after) ← readName rest
  if endsStatement after then return .ofEnd line kind name after else none

/-- The bytes of the unit's name in a statement about a unit. -/
def unitNameSpan (line : String) : Option Span :=
  ((useStatement? line.toList).map Statement.nameSpan) <|>
    ((unitStatement? line.toList).map Statement.nameSpan)

end FortranDeps.Units

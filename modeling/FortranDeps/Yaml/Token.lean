import FortranDeps.Yaml.Scalar.Quoted

/-!
The tokens of a YAML text, and the reading of directives, anchors and tags.
-/

namespace FortranDeps.Yaml

/-- How a scalar is written. -/
inductive Style where
  | plain
  | singleQuoted
  | doubleQuoted
  | literal
  | folded
  deriving DecidableEq, Repr

inductive Token where
  | versionDirective (major minor : Nat)
  | tagDirective (handle start : String)
  | documentStart
  | documentEnd
  | streamEnd
  | blockSequenceStart
  | blockMappingStart
  | blockEnd
  | flowSequenceStart
  | flowSequenceEnd
  | flowMappingStart
  | flowMappingEnd
  | blockEntry
  | flowEntry
  | key
  | value
  | alias (name : String)
  | anchor (name : String)
  | tag (handle suffix : String)
  | scalar (style : Style) (text : String)
  deriving DecidableEq, Repr

/-- The characters that may follow a name without a gap. -/
def endsName (c : Char) : Bool := c ∈ ['?', ':', ',', ']', '\x7d', '%', '@', '\x60']

/-- Reads the name of an anchor or alias, and what follows it. -/
def readName (text : List Char) : Except Fault (String × List Char) :=
  let name := text.takeWhile isNameChar
  let rest := text.dropWhile isNameChar
  if !name.isEmpty && (atGap rest || rest.head?.any endsName) then .ok (String.ofList name, rest)
  else .error .badAnchor

/-- The characters of a tag; those of flow collections only where the tag is delimited. -/
def isTagChar (delimited : Bool) (c : Char) : Bool :=
  isNameChar c ||
    c ∈ [';', '/', '?', ':', '@', '&', '=', '+', '$', '.', '!', '~', '*', '\'', '(', ')'] ||
    (delimited && c ∈ [',', '[', ']'])

/-- Reads the bytes of a tag, in which a percent sign and two digits stand for a byte. -/
def readTagBytes (delimited : Bool) : List Char → Except Fault (List UInt8 × List Char)
  | '%' :: a :: b :: rest =>
      match hexNumber? [a, b] with
      | none => .error .badTag
      | some byte => do
          let (bytes, rest) ← readTagBytes delimited rest
          return (byte.toUInt8 :: bytes, rest)
  | c :: rest =>
      if c = '%' then .error .badTag
      else if isTagChar delimited c then do
        let (bytes, rest) ← readTagBytes delimited rest
        return ((String.singleton c).toUTF8.toList ++ bytes, rest)
      else .ok ([], c :: rest)
  | [] => .ok ([], [])

def readTagText (delimited : Bool) (text : List Char) : Except Fault (String × List Char) := do
  let (bytes, rest) ← readTagBytes delimited text
  match String.fromUTF8? ⟨bytes.toArray⟩ with
  | some text => return (text, rest)
  | none => throw .badTag

/-- A part of a tag that cannot be empty. -/
def readTagPart (delimited : Bool) (text : List Char) : Except Fault (String × List Char) := do
  let (part, rest) ← readTagText delimited text
  if part = "" then throw .badTag
  return (part, rest)

/-- Reads a tag after its exclamation mark as a handle and a suffix. A tag without handle
has the primary one, and a mark alone has none. -/
def readTag (text : List Char) : Except Fault (Token × List Char) := do
  match text with
  | '<' :: text =>
      match ← readTagPart true text with
      | (suffix, '>' :: rest) => return (.tag "" suffix, rest)
      | _ => throw .badTag
  | text =>
      let name := String.ofList (text.takeWhile isNameChar)
      match text.dropWhile isNameChar with
      | '!' :: text =>
          let (suffix, rest) ← readTagPart false text
          return (.tag ("!" ++ name ++ "!") suffix, rest)
      | text =>
          let (more, rest) ← readTagText false text
          let suffix := name ++ more
          return (if suffix = "" then .tag "" "!" else .tag "!" suffix, rest)

/-- Reads a number of at most nine digits. -/
def readVersionNumber (text : List Char) : Except Fault (Nat × List Char) :=
  let digits := text.takeWhile Char.isDigit
  if digits.isEmpty || digits.length > 9 then .error .badDirective
  else .ok (digits.foldl (fun value digit => 10 * value + (digit.toNat - '0'.toNat)) 0,
    text.dropWhile Char.isDigit)

def readVersion (text : List Char) : Except Fault (Token × List Char) := do
  match ← readVersionNumber text with
  | (major, '.' :: text) =>
      let (minor, rest) ← readVersionNumber text
      return (.versionDirective major minor, rest)
  | _ => throw .badDirective

/-- Reads a tag handle and the text that it is short for. -/
def readTagDirective (text : List Char) : Except Fault (Token × List Char) := do
  match text with
  | '!' :: text =>
      let name := text.takeWhile isNameChar
      let (handle, rest) ← match text.dropWhile isNameChar with
        | '!' :: rest => pure ("!" ++ String.ofList name ++ "!", rest)
        | rest => if name.isEmpty then pure ("!", rest) else throw Fault.badDirective
      unless rest.head?.any isBlank do throw .badDirective
      let (start, rest) ← readTagPart true (rest.dropWhile isBlank)
      unless atGap rest do throw .badDirective
      return (.tagDirective handle start, rest)
  | _ => throw .badDirective

/-- Reads a directive after its percent sign, to the end of its line. -/
def readDirective (text : List Char) : Except Fault (Token × List Char) := do
  let name := String.ofList (text.takeWhile isNameChar)
  let text := text.dropWhile isNameChar
  unless atGap text do throw .badDirective
  let argument := text.dropWhile isBlank
  let (token, rest) ←
    if name = "YAML" then readVersion argument
    else if name = "TAG" then readTagDirective argument
    else throw Fault.badDirective
  return (token, ← endLine rest)

end FortranDeps.Yaml

import FortranDeps.Yaml.Scalar.Block
import FortranDeps.Yaml.Scalar.Plain
import FortranDeps.Yaml.Token

/-!
From characters to tokens. Indentation is written into the tokens as starts and ends of
block collections. Whether a node is the key of a mapping is seen only at the colon after
it, so the place of each possible key is remembered, and the tokens that make it one are
inserted there.
-/

namespace FortranDeps.Yaml

/-- A text that is still to be read, with the position of its start. -/
structure Cursor where
  rest : List Char
  index : Nat := 0
  line : Nat := 0
  column : Nat := 0
  deriving DecidableEq, Repr

namespace Cursor

def next (cursor : Cursor) : Cursor :=
  match cursor.rest with
  | [] => cursor
  | c :: rest =>
      if isBreak c then ⟨rest, cursor.index + 1, cursor.line + 1, 0⟩
      else ⟨rest, cursor.index + 1, cursor.line, cursor.column + 1⟩

def advance : Nat → Cursor → Cursor
  | 0, cursor => cursor
  | count + 1, cursor => advance count cursor.next

/-- Goes on to a rest of the text. -/
def moveTo (cursor : Cursor) (rest : List Char) : Cursor :=
  cursor.advance (cursor.rest.length - rest.length)

end Cursor

/-- A node that becomes a key if a colon follows it. -/
structure PossibleKey where
  /-- The number of tokens before it. -/
  place : Nat
  index : Nat
  line : Nat
  column : Nat
  /-- Whether nothing but a key can stand there. -/
  required : Bool
  deriving DecidableEq, Repr

structure Lexer where
  cursor : Cursor
  tokens : List Token := []
  /-- The columns of the open block collections, the innermost first. -/
  indents : List Nat := []
  /-- The possible key in the innermost flow collection, or outside of all of them. -/
  key : Option PossibleKey := none
  /-- The possible keys around it, one for each open flow collection. -/
  outerKeys : List (Option PossibleKey) := []
  /-- Whether a key may start at the cursor. -/
  keyAllowed : Bool := true
  deriving DecidableEq, Repr

namespace Lexer

def inFlow (lexer : Lexer) : Bool := !lexer.outerKeys.isEmpty

def push (lexer : Lexer) (token : Token) : Lexer :=
  { lexer with tokens := lexer.tokens ++ [token] }

def moveTo (lexer : Lexer) (rest : List Char) : Lexer :=
  { lexer with cursor := lexer.cursor.moveTo rest }

/-- The least indentation of text inside the innermost block collection. -/
def leastIndent (lexer : Lexer) : Nat := lexer.indents.head?.elim 0 (· + 1)

/-- The longest distance between the start of a key and its colon. -/
def keyLength : Nat := 1024

/-- Whether the cursor is too far from a possible key for it to be one. -/
def isStale (lexer : Lexer) (key : PossibleKey) : Bool :=
  key.line < lexer.cursor.line || key.index + keyLength < lexer.cursor.index

/-- Forgets a possible key that can be none any more. -/
def freshKey (lexer : Lexer) : Option PossibleKey → Except Fault (Option PossibleKey)
  | none => .ok none
  | some key =>
      if !lexer.isStale key then .ok (some key)
      else if key.required then .error .keyWithoutValue
      else .ok none

def dropStaleKeys (lexer : Lexer) : Except Fault Lexer := do
  return { lexer with
    key := ← lexer.freshKey lexer.key
    outerKeys := ← lexer.outerKeys.mapM lexer.freshKey }

/-- Forgets the possible key because something stands here that cannot follow a key. -/
def dropKey (lexer : Lexer) : Except Fault Lexer :=
  if lexer.key.any (·.required) then .error .keyWithoutValue
  else .ok { lexer with key := none }

/-- Remembers the cursor as the place of a possible key, if a key may start there. -/
def saveKey (lexer : Lexer) : Except Fault Lexer :=
  if lexer.keyAllowed then do
    let lexer ← lexer.dropKey
    let cursor := lexer.cursor
    return { lexer with key := some {
      place := lexer.tokens.length
      index := cursor.index
      line := cursor.line
      column := cursor.column
      required := !lexer.inFlow && lexer.indents.head? == some cursor.column } }
  else .ok lexer

/-- Ends the block collections that are indented further than a column; without a column
all of them. -/
def closeBlocks (lexer : Lexer) (column : Option Nat) : Lexer :=
  if lexer.inFlow then lexer
  else
    let isClosed (indent : Nat) : Bool := column.all (· < indent)
    { lexer with
      tokens := lexer.tokens ++ (lexer.indents.takeWhile isClosed).map fun _ => .blockEnd
      indents := lexer.indents.dropWhile isClosed }

/-- Starts a block collection at a column, unless one is open there. Its token stands
before the tokens from the given place on. -/
def openBlock (lexer : Lexer) (column place : Nat) (token : Token) : Lexer :=
  if !lexer.inFlow && lexer.indents.head?.all (· < column) then
    { lexer with
      tokens := lexer.tokens.take place ++ token :: lexer.tokens.drop place
      indents := column :: lexer.indents }
  else lexer

/-- A token that is written with a single character. -/
def mark (lexer : Lexer) (token : Token) : Lexer :=
  { lexer.push token with cursor := lexer.cursor.next }

def openFlow (lexer : Lexer) (token : Token) : Except Fault Lexer := do
  let lexer ← lexer.saveKey
  return { lexer.mark token with
    key := none
    outerKeys := lexer.key :: lexer.outerKeys
    keyAllowed := true }

def closeFlow (lexer : Lexer) (token : Token) : Except Fault Lexer := do
  let lexer ← lexer.dropKey
  let closed := { lexer.mark token with keyAllowed := false }
  match lexer.outerKeys with
  | [] => return closed
  | key :: outerKeys => return { closed with key, outerKeys }

def flowEntry (lexer : Lexer) : Except Fault Lexer := do
  let lexer ← lexer.dropKey
  return { lexer.mark .flowEntry with keyAllowed := true }

/-- A mark that starts a block collection unless it stands in a flow collection. -/
def blockMark (lexer : Lexer) (token collection : Token) (fault : Fault) (keyAllowed : Bool) :
    Except Fault Lexer := do
  if !lexer.inFlow && !lexer.keyAllowed then throw fault
  let opened := lexer.openBlock lexer.cursor.column lexer.tokens.length collection
  let lexer ← opened.dropKey
  return { lexer.mark token with keyAllowed }

def blockEntry (lexer : Lexer) : Except Fault Lexer :=
  lexer.blockMark .blockEntry .blockSequenceStart .misplacedEntry true

def explicitKey (lexer : Lexer) : Except Fault Lexer :=
  lexer.blockMark .key .blockMappingStart .misplacedKey (!lexer.inFlow)

/-- The colon before a value. The possible key becomes one; without it the colon belongs
to an explicit key. -/
def value (lexer : Lexer) : Except Fault Lexer :=
  match lexer.key with
  | some key =>
      let keyed := { lexer with
        tokens := lexer.tokens.take key.place ++ Token.key :: lexer.tokens.drop key.place
        key := none
        keyAllowed := false }
      return (keyed.openBlock key.column key.place .blockMappingStart).mark .value
  | none => lexer.blockMark .value .blockMappingStart .misplacedValue (!lexer.inFlow)

/-- A document marker of three characters. -/
def documentMarker (lexer : Lexer) (token : Token) : Except Fault Lexer := do
  let lexer ← (lexer.closeBlocks none).dropKey
  return { lexer.push token with cursor := lexer.cursor.advance 3, keyAllowed := false }

def directive (lexer : Lexer) (text : List Char) : Except Fault Lexer := do
  let lexer ← (lexer.closeBlocks none).dropKey
  let (token, rest) ← readDirective text
  return { (lexer.push token).moveTo rest with keyAllowed := false }

/-- A token that may start a key. -/
def keyToken (lexer : Lexer) (token : Token) (rest : List Char) : Except Fault Lexer := do
  let lexer ← lexer.saveKey
  return { (lexer.push token).moveTo rest with keyAllowed := false }

def tag (lexer : Lexer) (text : List Char) : Except Fault Lexer := do
  let (token, rest) ← readTag text
  unless atGap rest || (lexer.inFlow && rest.head? == some ',') do throw .badTag
  lexer.keyToken token rest

def quoted (lexer : Lexer) (style : Style)
    (read : Gap → List Char → Except Fault (List Char × List Char)) (text : List Char) :
    Except Fault Lexer := do
  let (text, rest) ← read .none text
  lexer.keyToken (.scalar style (String.ofList text)) rest

def plain (lexer : Lexer) : Except Fault Lexer := do
  let scalar ← readPlain lexer.inFlow lexer.leastIndent lexer.cursor.rest
  let lexer ← lexer.keyToken (.scalar .plain (String.ofList scalar.text)) scalar.rest
  return { lexer with keyAllowed := scalar.isOnNewLine }

def block (lexer : Lexer) (style : Style) (text : List Char) : Except Fault Lexer := do
  if lexer.inFlow then throw .noToken
  let lexer ← lexer.dropKey
  let (text, rest) ← readBlock (style == .folded) lexer.indents.head? text
  return { (lexer.push (.scalar style (String.ofList text))).moveTo rest with keyAllowed := true }

/-- Passes over blanks, comments and line ends, and tells whether a key may start after
them. A tab is passed over only where no key can start. -/
def passOver (flow comment keyAllowed : Bool) : List Char → List Char × Bool
  | [] => ([], keyAllowed)
  | c :: rest =>
      if isBreak c then passOver flow false (keyAllowed || !flow) rest
      else if comment then passOver flow true keyAllowed rest
      else if c = ' ' || (c = '\t' && (flow || !keyAllowed)) then
        passOver flow false keyAllowed rest
      else if c = '#' then passOver flow true keyAllowed rest
      else (c :: rest, keyAllowed)

/-- Goes to the start of the next token, and ends the block collections before it. -/
def settle (lexer : Lexer) : Except Fault Lexer := do
  let (rest, keyAllowed) := passOver lexer.inFlow false lexer.keyAllowed lexer.cursor.rest
  let lexer ← { lexer.moveTo rest with keyAllowed }.dropStaleKeys
  return lexer.closeBlocks (some lexer.cursor.column)

/-- Reads the token at the cursor, whose first character is given. -/
def read (lexer : Lexer) (c : Char) (rest : List Char) : Except Fault Lexer :=
  let lineStart := lexer.cursor.column == 0
  if lineStart && c == '%' then lexer.directive rest
  else if lineStart && isMarker '-' (c :: rest) then lexer.documentMarker .documentStart
  else if lineStart && isMarker '.' (c :: rest) then lexer.documentMarker .documentEnd
  else match c with
    | '[' => lexer.openFlow .flowSequenceStart
    | '\x7b' => lexer.openFlow .flowMappingStart
    | ']' => lexer.closeFlow .flowSequenceEnd
    | '\x7d' => lexer.closeFlow .flowMappingEnd
    | ',' => lexer.flowEntry
    | '-' => if atGap rest then lexer.blockEntry else lexer.plain
    | '?' => if lexer.inFlow || atGap rest then lexer.explicitKey else lexer.plain
    | ':' => if lexer.inFlow || atGap rest then lexer.value else lexer.plain
    | '*' => do
        let (name, rest) ← readName rest
        lexer.keyToken (.alias name) rest
    | '&' => do
        let (name, rest) ← readName rest
        lexer.keyToken (.anchor name) rest
    | '!' => lexer.tag rest
    | '|' => lexer.block .literal rest
    | '>' => lexer.block .folded rest
    | '\'' => lexer.quoted .singleQuoted readSingleQuoted rest
    | '"' => lexer.quoted .doubleQuoted readDoubleQuoted rest
    | '#' | '%' | '@' | '\x60' | '\t' => .error .noToken
    | _ => lexer.plain

/-- The tokens of a text that has been read to its end. -/
def finish (lexer : Lexer) : Except Fault (List Token) := do
  let lexer ← (lexer.closeBlocks none).dropKey
  return lexer.tokens ++ [.streamEnd]

/-- Reads at most the given number of tokens. -/
def run : Nat → Lexer → Except Fault (List Token)
  | 0, lexer => lexer.finish
  | count + 1, lexer => do
      let lexer ← lexer.settle
      match lexer.cursor.rest with
      | [] => lexer.finish
      | c :: rest => run count (← lexer.read c rest)

end Lexer

/-- The tokens of a text. Each token but the last takes a character at least. -/
def tokenize (text : String) : Except Fault (List Token) := do
  let text ← characters text
  Lexer.run (text.length + 1) { cursor := { rest := text } }

end FortranDeps.Yaml

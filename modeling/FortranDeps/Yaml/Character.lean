import FortranDeps.Yaml.Fault

/-!
The characters of a YAML text. Line ends of all kinds are read as line feeds, except the
line and paragraph separators, which stay as they are.
-/

namespace FortranDeps.Yaml

def isAllowed (c : Char) : Bool :=
  let code := c.toNat
  code == 0x09 || code == 0x0A || code == 0x0D || (0x20 ≤ code && code ≤ 0x7E) ||
    code == 0x85 || (0xA0 ≤ code && code ≤ 0xFFFD && code != 0xFEFF) || 0x10000 ≤ code

/-- Replaces each line end by a line feed. -/
def unifyBreaks : List Char → List Char
  | [] => []
  | '\r' :: '\n' :: rest => '\n' :: unifyBreaks rest
  | c :: rest => (if c = '\r' || c = '\u0085' then '\n' else c) :: unifyBreaks rest

/-- The characters of a text with its line ends unified. A byte order mark at its start is
passed over. -/
def characters (text : String) : Except Fault (List Char) :=
  let marked := match text.toList with
    | '\uFEFF' :: rest => rest
    | unmarked => unmarked
  if marked.all isAllowed then .ok (unifyBreaks marked) else .error .invalidCharacter

def isBreak (c : Char) : Bool := c == '\n' || c == '\u2028' || c == '\u2029'

def isBlank (c : Char) : Bool := c == ' ' || c == '\t'

/-- The characters of anchors, directives and tag handles. -/
def isNameChar (c : Char) : Bool := c.isAlphanum || c == '_' || c == '-'

/-- The characters that separate the parts of a flow collection. -/
def isFlowIndicator (c : Char) : Bool := c ∈ [',', '[', ']', '\x7b', '\x7d']

/-- Whether a text is at its end, at a blank or at a line end. -/
def atGap : List Char → Bool
  | [] => true
  | c :: _ => isBlank c || isBreak c

/-- Whether a text starts with three of the given characters and a gap. -/
def isMarker (mark : Char) : List Char → Bool
  | first :: second :: third :: rest =>
      first == mark && second == mark && third == mark && atGap rest
  | _ => false

/-- Whether a line starts with a document marker. -/
def isDocumentMarker (line : List Char) : Bool := isMarker '-' line || isMarker '.' line

/-- Passes over blanks, a comment and the line end after them; nothing else may follow. -/
def endLine (text : List Char) : Except Fault (List Char) :=
  let rest := match text.dropWhile isBlank with
    | '#' :: comment => comment.dropWhile (!isBreak ·)
    | rest => rest
  match rest with
  | [] => .ok []
  | c :: rest => if isBreak c then .ok rest else .error .badBlockHeader

end FortranDeps.Yaml

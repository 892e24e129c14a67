import FortranDeps.Yaml.Gap

/-!
Scalars without quotes. They end before a colon with a gap after it, before a comment,
before a line that is not indented further than the collection around them, and inside
flow collections also before the characters that separate entries.
-/

namespace FortranDeps.Yaml

/-- What is read of a plain scalar. -/
structure PlainScalar where
  text : List Char
  rest : List Char
  /-- Whether the rest stands on a later line than the end of the scalar. -/
  isOnNewLine : Bool
  deriving DecidableEq, Repr

/-- Whether a plain scalar ends before a character that follows it without a gap. -/
def endsPlain (flow : Bool) (c : Char) (rest : List Char) : Bool :=
  (c == ':' && atGap rest) || (flow && isFlowIndicator c)

/-- Whether a plain scalar ends at the gap before a character. -/
def endsPlainAfter (flow : Bool) (indent : Nat) (gap : Gap) (c : Char) (rest : List Char) : Bool :=
  c == '#' || (gap.isOnNewLine && !flow && gap.column < indent) ||
    (gap.isAtLineStart && isDocumentMarker (c :: rest))

/-- Whether a colon inside a flow collection has one of its indicators after it. -/
def isColonInFlow (flow : Bool) (c : Char) (rest : List Char) : Bool :=
  flow && c == ':' && rest.head?.any fun next => next == '?' || isFlowIndicator next

/-- Reads a plain scalar from the gap before its next character. Its lines have to be
indented by `indent` columns. -/
def plainFrom (flow : Bool) (indent : Nat) (gap : Gap) : List Char → Except Fault PlainScalar
  | [] => .ok ⟨[], [], gap.isOnNewLine⟩
  | c :: rest =>
      if isBreak c || isBlank c then
        if c = '\t' && gap.isOnNewLine && gap.column < indent then .error .tabInIndentation
        else plainFrom flow indent (gap.add c) rest
      else if gap != .none && endsPlainAfter flow indent gap c rest then
        .ok ⟨[], c :: rest, gap.isOnNewLine⟩
      else if isColonInFlow flow c rest then .error .colonInFlow
      else if endsPlain flow c rest then .ok ⟨[], c :: rest, gap.isOnNewLine⟩
      else do
        let more ← plainFrom flow indent .none rest
        return { more with text := gap.folded ++ c :: more.text }

/-- Reads a plain scalar that starts at the first character. -/
def readPlain (flow : Bool) (indent : Nat) (text : List Char) : Except Fault PlainScalar :=
  plainFrom flow indent .none text

end FortranDeps.Yaml

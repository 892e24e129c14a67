import FortranDeps.Yaml.Character

/-!
Block scalars. A header says how the line ends after the last line are treated and may
give the indentation; without it the first line does. In a folded scalar a line end
between two lines that do not start with a blank is folded.
-/

namespace FortranDeps.Yaml

/-- What becomes of the line ends at the end of a block scalar. -/
inductive Chomping where
  | strip
  | clip
  | keep
  deriving DecidableEq, Repr

structure BlockHeader where
  chomping : Chomping
  /-- The columns by which the lines are indented, if they are given. -/
  increment : Option Nat
  deriving DecidableEq, Repr

def chomping? : Char → Option Chomping
  | '+' => some .keep
  | '-' => some .strip
  | _ => none

/-- The chomping mark at the start of a text, if there is one. -/
def readChomping : List Char → Chomping × List Char
  | c :: rest => match chomping? c with
    | some chomping => (chomping, rest)
    | none => (.clip, c :: rest)
  | [] => (.clip, [])

/-- The indentation at the start of a text, if it is given; it cannot be zero. -/
def readIncrement : List Char → Except Fault (Option Nat × List Char)
  | c :: rest =>
      if c = '0' then .error .badBlockHeader
      else if c.isDigit then .ok (some (c.toNat - '0'.toNat), rest)
      else .ok (none, c :: rest)
  | [] => .ok (none, [])

/-- Reads the rest of a header with its line end. The two marks come in either order. -/
def readHeader (text : List Char) : Except Fault (BlockHeader × List Char) := do
  let (header, rest) ← match readChomping text with
    | (.clip, text) => do
        let (increment, rest) ← readIncrement text
        match increment with
        | none => pure (BlockHeader.mk .clip none, rest)
        | some _ =>
            let (chomping, rest) := readChomping rest
            pure (BlockHeader.mk chomping increment, rest)
    | (chomping, text) => do
        let (increment, rest) ← readIncrement text
        pure (BlockHeader.mk chomping increment, rest)
  return (header, ← endLine rest)

/-- The empty lines at the start of a block scalar. -/
structure LeadingLines where
  breaks : List Char
  /-- The number of spaces on the widest of these lines and before the text after them. -/
  widest : Nat
  /-- The number of spaces before the text after them. -/
  column : Nat
  rest : List Char
  deriving DecidableEq, Repr

/-- Reads empty lines and the spaces before the next text, up to the given indentation if
there is one. -/
def readLeadingLines (indent : Option Nat) (column : Nat) : List Char → Except Fault LeadingLines
  | [] => .ok ⟨[], column, column, []⟩
  | c :: rest =>
      let inside := indent.all (column < ·)
      if inside && c == ' ' then readLeadingLines indent (column + 1) rest
      else if inside && c == '\t' then .error .tabInIndentation
      else if isBreak c then do
        let lines ← readLeadingLines indent 0 rest
        return { lines with breaks := c :: lines.breaks, widest := max column lines.widest }
      else .ok ⟨[], column, column, c :: rest⟩

/-- A place between two lines of a block scalar. -/
structure LineEnds where
  /-- The end of the line before; none at the start of the scalar. -/
  last : Option Char
  /-- Whether the line before starts with a blank. -/
  afterBlank : Bool
  /-- The ends of empty lines. -/
  empty : List Char
  deriving DecidableEq, Repr

namespace LineEnds

/-- What stands between the line before and a line with the given first character. -/
def joint (ends : LineEnds) (folded : Bool) (first : Char) : List Char :=
  if folded && ends.last == some '\n' && !ends.afterBlank && !isBlank first then
    if ends.empty.isEmpty then [' '] else ends.empty
  else ends.last.toList ++ ends.empty

/-- What stands after the last line. -/
def tail (ends : LineEnds) : Chomping → List Char
  | .strip => []
  | .clip => ends.last.toList
  | .keep => ends.last.toList ++ ends.empty

end LineEnds

/-- What is read next: more of a line, or the indentation of one. -/
inductive BlockState where
  | inLine (startsBlank : Bool)
  | between (ends : LineEnds) (column : Nat)
  deriving DecidableEq, Repr

/-- Reads the lines of a block scalar, and what follows it. -/
def readBlockLines (folded : Bool) (chomping : Chomping) (indent : Nat) (state : BlockState) :
    List Char → Except Fault (List Char × List Char)
  | [] => match state with
    | .inLine _ => .ok ([], [])
    | .between ends _ => .ok (ends.tail chomping, [])
  | c :: rest =>
      let more (state : BlockState) := readBlockLines folded chomping indent state rest
      match state with
      | .inLine startsBlank =>
          if isBreak c then more (.between ⟨some c, startsBlank, []⟩ 0)
          else do
            let (text, rest) ← more (.inLine startsBlank)
            return (c :: text, rest)
      | .between ends column =>
          if column < indent && c = ' ' then more (.between ends (column + 1))
          else if column < indent && c = '\t' then .error .tabInIndentation
          else if isBreak c then more (.between { ends with empty := ends.empty ++ [c] } 0)
          else if column = indent then do
            let (text, rest) ← more (.inLine (isBlank c))
            return (ends.joint folded c ++ c :: text, rest)
          else .ok (ends.tail chomping, c :: rest)

/-- Reads a block scalar from its header on, and what follows it. The lines are indented
by more than the collection around them, which is indented by `outer` columns if there
is one. -/
def readBlock (folded : Bool) (outer : Option Nat) (text : List Char) :
    Except Fault (List Char × List Char) := do
  let (header, text) ← readHeader text
  let given := header.increment.map (outer.getD 0 + ·)
  let lines ← readLeadingLines given 0 text
  let indent := given.getD (max lines.widest (outer.elim 1 (· + 1)))
  readBlockLines folded header.chomping indent (.between ⟨none, false, lines.breaks⟩ lines.column)
    lines.rest

end FortranDeps.Yaml

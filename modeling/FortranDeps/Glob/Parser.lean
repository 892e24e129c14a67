import FortranDeps.Glob.Mark

/-!
From marks to patterns. A star or question mark also matches slashes. A double star that
fills the space between slashes stands for any number of directories; anywhere else it
is two stars.
-/

namespace FortranDeps.Glob

/-- A part of a glob. Directories at its start and at its end are told apart from other
parts, because further double stars add nothing to them. -/
inductive Part where
  | leadingDirectories
  | trailingDirectories
  | piece (pattern : Pattern)
  deriving DecidableEq, Repr

def Part.pattern : Part → Pattern
  | leadingDirectories =>
      .either (.either .slash .empty) (.seq .anything .slash)
  | trailingDirectories => .seq .slash .anything
  | piece pattern => pattern

/-- Any number of directories between two names. -/
def innerDirectories : Part :=
  .piece (.either .slash (.seq .slash (.seq .anything .slash)))

/-- A group while it is read: its finished branches and the current one, the last part
first. The whole glob is read like a branch of its own. -/
structure Level where
  finished : List (List Part)
  current : List Part

namespace Level

def fresh : Level := ⟨[], []⟩

def push (level : Level) (part : Part) : Level := { level with current := part :: level.current }

/-- Two stars in a row. -/
def pushStars (level : Level) : Level := (level.push (.piece .anything)).push (.piece .anything)

/-- Puts directories in place of the slash before them; after leading or trailing
directories they add nothing. -/
def replaceSlash (level : Level) (part : Part) : Level :=
  match level.current with
  | .leadingDirectories :: _ | .trailingDirectories :: _ => level
  | current => { level with current := part :: current.tail }

def nextBranch (level : Level) : Level := ⟨level.finished ++ [level.current], []⟩

end Level

/-- The pattern of a branch; none if it matches nothing but the empty text. -/
def branch? (parts : List Part) : Option Pattern :=
  if parts.all (· == .piece .empty) then none
  else some (.sequence (parts.reverse.map Part.pattern))

/-- The pattern of a group. Empty branches are left out. -/
def Level.group (level : Level) : Part :=
  .piece (.choice (level.nextBranch.finished.filterMap branch?))

/-- The pattern of a whole glob. A double star alone matches everything. -/
def Level.whole (level : Level) : Pattern :=
  match level.current with
  | [.leadingDirectories] => .anything
  | current => .sequence (current.reverse.map Part.pattern)

/-- Whether a mark is a slash, escaped or not. -/
def Mark.isSlash : Mark → Bool
  | literal c | escaped c => c == '/'
  | _ => false

/-- Whether a mark is written with the character that starts a branch. -/
def Mark.startsBranch : Mark → Bool
  | openGroup | comma => true
  | escaped c => c == ',' || c == '\x7b'
  | _ => false

/-- Reads marks after the given one into the innermost level; `outer` holds the levels
around it. -/
def parseMarks (previous : Option Mark) (outer : List Level) (level : Level) :
    List Mark → Except Fault Pattern
  | [] => if outer.isEmpty then .ok level.whole else .error .unclosedGroup
  | .broken fault :: _ => .error fault
  | .doubleStar :: .literal '/' :: rest =>
      let after := some (Mark.literal '/')
      if level.current.isEmpty then
        parseMarks after outer (level.push .leadingDirectories) rest
      else if previous.any fun mark => mark.isSlash || (!outer.isEmpty && mark.startsBranch) then
        parseMarks after outer (level.replaceSlash innerDirectories) rest
      else parseMarks after outer (level.pushStars.push (.piece .slash)) rest
  | .doubleStar :: rest =>
      let after := some Mark.doubleStar
      let ends := match rest with
        | [] => true
        | .comma :: _ | .closeGroup :: _ => !outer.isEmpty && !level.current.isEmpty
        | _ => false
      if level.current.isEmpty && ends then
        parseMarks after outer (level.push .leadingDirectories) rest
      else if ends && previous.any fun mark =>
          mark.isSlash || (!outer.isEmpty && mark.startsBranch) then
        parseMarks after outer (level.replaceSlash .trailingDirectories) rest
      else parseMarks after outer level.pushStars rest
  | mark :: rest =>
      let pushed (pattern : Pattern) :=
        parseMarks (some mark) outer (level.push (.piece pattern)) rest
      match mark with
      | .literal c | .escaped c => pushed (.char c)
      | .question => pushed .anyByte
      | .oneOf bytes => pushed (.one bytes)
      | .openGroup => parseMarks (some mark) (level :: outer) .fresh rest
      | .comma =>
          if outer.isEmpty then pushed (.char ',')
          else parseMarks (some mark) outer level.nextBranch rest
      | .closeGroup =>
          match outer with
          | [] => .error .unopenedGroup
          | around :: outer => parseMarks (some mark) outer (around.push level.group) rest
      | _ => pushed .anything

/-- Reads a glob. -/
def parse (text : String) : Except Fault Pattern :=
  parseMarks none [] .fresh (marks text.toList)

end FortranDeps.Glob

import FortranDeps.Yaml.Character

/-!
Blanks and line ends inside a scalar. Blanks on one line stand for themselves. A single
line end is folded to a space, and of several line ends the first is dropped. Blanks
around line ends are dropped.
-/

namespace FortranDeps.Yaml

structure Gap where
  /-- The blanks before the first line end. -/
  blanks : List Char := []
  breaks : List Char := []
  /-- Whether an escaped line end, which is not among the breaks, stands at the start. -/
  spliced : Bool := false
  /-- The number of blanks since the last line end. -/
  column : Nat := 0
  deriving DecidableEq, Repr

namespace Gap

def none : Gap := {}

/-- The gap that an escaped line end opens. -/
def splice : Gap := { spliced := true }

def isOnNewLine (gap : Gap) : Bool := gap.spliced || !gap.breaks.isEmpty

/-- Extends a gap by a blank or a line end. -/
def add (gap : Gap) (c : Char) : Gap :=
  if isBreak c then { gap with breaks := gap.breaks ++ [c], column := 0 }
  else if gap.isOnNewLine then { gap with column := gap.column + 1 }
  else { gap with blanks := gap.blanks ++ [c] }

/-- The characters that a gap stands for. -/
def folded (gap : Gap) : List Char :=
  if gap.spliced then gap.breaks
  else match gap.breaks with
    | [] => gap.blanks
    | ['\n'] => [' ']
    | '\n' :: more => more
    | breaks => breaks

/-- Whether the text after a gap stands at the start of a line. -/
def isAtLineStart (gap : Gap) : Bool := gap.isOnNewLine && gap.column == 0

end Gap

end FortranDeps.Yaml

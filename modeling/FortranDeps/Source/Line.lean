import FortranDeps.Diagnostic
import FortranDeps.Text.Blank

/-!
Source lines. Blank lines and lines that hold only a comment carry nothing, so they are
left out; the lines that are kept remember where they stood.
-/

namespace FortranDeps

structure Line where
  text : String
  location : Location
  deriving DecidableEq, Repr

namespace Line

/-- Whether a line holds nothing but white space or a comment. -/
def isSilent (text : List Char) : Bool :=
  match Text.trimStart text with
  | [] => true
  | c :: _ => c == '!'

/-- The lines of a text that are not silent, with their numbers. -/
def ofText (file : String) (text : String) : List Line :=
  ((Text.lines text.toList).zipIdx 1).filterMap fun (line, number) =>
    if isSilent line then none else some ⟨String.ofList line, ⟨file, number⟩⟩

end Line

end FortranDeps

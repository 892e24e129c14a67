import FortranDeps.Preprocess.Level
import FortranDeps.Units.Statement

/-!
The preprocessor. A file is prepared and walked as a level, and so is each branch that
the walk chooses. A surviving line is expanded with the table as it stands when the line
is reached.
-/

namespace FortranDeps.Preprocess

/-- Expands a line; the name of a unit in it is kept from bare flags. -/
def emitLine (line : Line) (table : MacroTable) : Line :=
  ⟨table.expand line.text (Units.unitNameSpan line.text), line.location⟩

def walker (tree : FileTree) (paths : List Path) : Walker Progress where
  isDefined progress name := progress.table.isDefined name
  prepare := prepareLevel tree paths
  emit line progress := emitLine line progress.table
  prepare_noHeavier := prepare_level_no_heavier tree paths

/-- Preprocesses lines from a table of seeds. The progress is returned also when the run
fails, as it stood then. -/
def preprocess (tree : FileTree) (paths : List Path) (lines : List Line) (seeds : MacroTable) :
    Except Diagnostic (List Line) × Progress :=
  let start : Progress := ⟨seeds, []⟩
  match Item.ofLines lines with
  | .error diagnostic => (.error diagnostic, start)
  | .ok items =>
      match prepareLevel tree paths items start with
      | (.error diagnostic, progress) => (.error diagnostic, progress)
      | (.ok level, progress) => (walker tree paths).walk level progress

/-- Reads a file and preprocesses its lines. -/
def preprocessFile (tree : FileTree) (paths : List Path) (path : Path) (seeds : MacroTable) :
    Except Diagnostic (List Line) × Progress :=
  match tree.readLines path with
  | .error diagnostic => (.error diagnostic, ⟨seeds, []⟩)
  | .ok lines => preprocess tree paths lines seeds

/-- A walker that prepares nothing and copies every line, and notes the size of each
branch it is given. -/
def surveyor : Walker (MacroTable × List Nat) where
  isDefined state name := state.1.isDefined name
  prepare level state := (.ok level, (state.1, state.2 ++ [level.length]))
  emit line _ := line
  prepare_noHeavier level _ prepared same := by
    cases same
    exact .refl level

end FortranDeps.Preprocess

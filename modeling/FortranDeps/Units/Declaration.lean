import FortranDeps.Source.Line
import FortranDeps.Units.Statement

/-!
What the lines of a file say about modules: the one unit it declares, and the modules it
uses. Names are lower-cased, so that they can be compared as they are.
-/

namespace FortranDeps.Units

structure Declaration where
  file : Path
  kind : UnitKind
  name : String
  deriving DecidableEq, Repr

structure UseEdge where
  file : Path
  /-- The module that is used. -/
  name : String
  intrinsic : Bool
  /-- The line of the first use. -/
  line : Nat
  deriving DecidableEq, Repr

/-- The units that a file declares. -/
inductive DeclarationSearch where
  | one (kind : UnitKind) (name : String)
  | none
  | several (names : List String)
  deriving DecidableEq, Repr

/-- The unit that a line declares. A module procedure looks like one and is not. -/
def declaredUnit? (line : Line) : Option (UnitKind × String) := do
  let statement ← unitStatement? line.text.toList
  if statement.unitName = "procedure" then failure
  return (statement.property, statement.unitName)

def findDeclaration (lines : List Line) : DeclarationSearch :=
  match lines.filterMap declaredUnit? with
  | [] => .none
  | [(kind, name)] => .one kind name
  | units => .several (units.map (·.2))

/-- A file has to declare exactly one unit. -/
def DeclarationSearch.toDeclaration (file : Path) :
    DeclarationSearch → Except Diagnostic Declaration
  | one kind name => .ok ⟨file, kind, name⟩
  | none => .error (.noDeclaration file)
  | several names => .error (.multipleDeclarations file names)

def usedModule? (file : Path) (line : Line) : Option UseEdge := do
  let statement ← useStatement? line.text.toList
  return ⟨file, statement.unitName, statement.property, line.location.line⟩

/-- The first edge to each module, in the order in which they appear. -/
def firstUses : List UseEdge → List UseEdge
  | [] => []
  | edge :: rest => edge :: (firstUses rest).filter (·.name != edge.name)

def findUses (file : Path) (lines : List Line) : List UseEdge :=
  firstUses (lines.filterMap (usedModule? file))

end FortranDeps.Units

import FortranDeps.Units.Declaration

/-!
The index of declared units: which file defines a name. Modules and programs share one
name space, and the first definition of a name is kept.
-/

namespace FortranDeps.Build

open FortranDeps.Units

structure Definition where
  file : Path
  kind : UnitKind
  deriving DecidableEq, Repr

/-- Names with their definitions, in the order in which they were added. -/
structure SymbolIndex where
  units : List (String × Definition)
  deriving DecidableEq, Repr

namespace SymbolIndex

def empty : SymbolIndex := ⟨[]⟩

def get? (index : SymbolIndex) (name : String) : Option Definition := index.units.lookup name

/-- The file that defines a name. -/
def lookup (index : SymbolIndex) (name : String) : Option Path := (index.get? name).map (·.file)

/-- Adds a declaration, unless its name is taken. -/
def insert (index : SymbolIndex) (declaration : Declaration) : Except Diagnostic SymbolIndex :=
  match index.get? declaration.name with
  | some earlier =>
      .error (.duplicateDefinition declaration.name earlier.file declaration.file)
  | none =>
      .ok ⟨index.units ++ [(declaration.name, ⟨declaration.file, declaration.kind⟩)]⟩

/-- Adds declarations up to the first whose name is taken. -/
def build (declarations : List Declaration) : Except Diagnostic SymbolIndex :=
  declarations.foldlM insert empty

def size (index : SymbolIndex) : Nat := index.units.length

def programCount (index : SymbolIndex) : Nat :=
  index.units.countP fun (_, definition) => definition.kind == .mainProgram

def moduleCount (index : SymbolIndex) : Nat := index.size - index.programCount

end SymbolIndex

end FortranDeps.Build

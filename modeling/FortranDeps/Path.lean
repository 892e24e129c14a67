import FortranDeps.Text.Split

/-!
Paths of files. A path keeps the text it was written with, and is compared by its
components: doubled slashes, slashes at the end and dots after the first component make
no difference, while a leading dot does.
-/

namespace FortranDeps

structure Path where
  text : String
  deriving DecidableEq, Repr, Inhabited

inductive Component where
  | root
  | current
  | parent
  | normal (name : String)
  deriving DecidableEq, Hashable, Repr

namespace Component

def text : Component → String
  | root => "/"
  | current => "."
  | parent => ".."
  | normal name => name

/-- The rank of the special components, which come before every name. -/
def rank : Component → Nat
  | root => 0
  | current => 1
  | parent => 2
  | normal _ => 3

def before : Component → Component → Bool
  | normal first, normal second => first < second
  | first, second => first.rank < second.rank

end Component

namespace Path

/-- What stands between the slashes of a path. -/
def segments (path : Path) : List (List Char) := Text.splitOn '/' path.text.toList

/-- Segments that name nothing: the empty one and the dot. -/
def isIdle (segment : List Char) : Bool := segment == [] || segment == ['.']

def component (segment : List Char) : Component :=
  if segment = ['.', '.'] then .parent else .normal (String.ofList segment)

def components (path : Path) : List Component :=
  let body := (path.segments.filter (!isIdle ·)).map component
  match path.segments with
  | [] :: _ :: _ => .root :: body
  | ['.'] :: _ => .current :: body
  | _ => body

/-- Whether two paths are equal component by component. -/
def same (first second : Path) : Bool := first.components == second.components

/-- The first of all equal paths, in order. -/
def distinct : List Path → List Path
  | [] => []
  | path :: rest => path :: (distinct rest).filter (!·.same path)

/-- The order of component lists: component by component, a shorter list before its
extensions. -/
def componentsBefore : List Component → List Component → Bool
  | _, [] => false
  | [], _ :: _ => true
  | first :: firstRest, second :: secondRest =>
      first.before second || (first == second && componentsBefore firstRest secondRest)

def before (first second : Path) : Bool := componentsBefore first.components second.components

def isAbsolute (path : Path) : Bool := path.text.toList.head? == some '/'

/-- The path that a name written relative to a base stands for. -/
def join (base : Path) (name : String) : Path :=
  if isAbsolute ⟨name⟩ then ⟨name⟩
  else if base.text = "" || base.text.toList.getLast? == some '/' then ⟨base.text ++ name⟩
  else ⟨base.text ++ "/" ++ name⟩

def ofComponents (components : List Component) : Path :=
  components.foldl (fun base component => base.join component.text) ⟨""⟩

/-- The path written without dots and doubled slashes. -/
def withoutDots (path : Path) : Path :=
  ofComponents (path.components.filter (· != .current))

def dropIdleEnd (segments : List (List Char)) : List (List Char) :=
  (segments.reverse.dropWhile isIdle).reverse

/-- The segments before the last one that names something, without idle segments at
their end; none if no segment names anything. -/
def leadingSegments (segments : List (List Char)) : Option (List (List Char)) :=
  match dropIdleEnd segments with
  | [] => none
  | kept => some (dropIdleEnd kept.dropLast)

def ofSegments (segments : List (List Char)) : Path :=
  ⟨String.ofList (Text.joinWith '/' segments)⟩

/-- The path without its last component, as it was written; none for the root and for
the empty path. -/
def parent (path : Path) : Option Path :=
  match path.segments with
  | [] :: first :: rest =>
      (leadingSegments (first :: rest)).map fun leading => ofSegments ([] :: (match leading with
        | [] => [[]]
        | kept => kept))
  | ['.'] :: rest =>
      match leadingSegments rest with
      | none => some ⟨""⟩
      | some leading => some (ofSegments (['.'] :: leading))
  | segments => (leadingSegments segments).map ofSegments

def fileName (path : Path) : Option String :=
  match path.components.getLast? with
  | some (.normal name) => some name
  | _ => none

/-- A file name cut at its last dot, unless that is its first character. -/
def cutExtension (name : String) : String × Option String :=
  let reversed := name.toList.reverse
  match reversed.dropWhile (· ≠ '.') with
  | _ :: stem@(_ :: _) =>
      (String.ofList stem.reverse, some (String.ofList (reversed.takeWhile (· ≠ '.')).reverse))
  | _ => (name, none)

def fileStem (path : Path) : Option String := path.fileName.map fun name => (cutExtension name).1

def extension (path : Path) : Option String := path.fileName.bind fun name => (cutExtension name).2

end Path

end FortranDeps

import FortranDeps.Path

/-!
A file tree as a value. Nodes are found by their place, the names from the root directory
down to them. Looking up a path walks it segment by segment, as an operating system does:
a link is followed wherever it stands, and a segment after a file is an error even if it
names nothing.
-/

namespace FortranDeps

/-- Contents are compared byte by byte. -/
instance instDecidableEqContent : DecidableEq ByteArray := ByteArray.instDecidableEq

/-- Names from the root directory down. -/
abbrev Place := List String

inductive Node where
  | file (content : ByteArray)
  | directory
  | link (target : String)
  deriving DecidableEq

/-- A file that is complete but does not stand at its destination yet. -/
structure Temporary where
  id : Nat
  directory : Place
  content : ByteArray
  deriving DecidableEq

structure FileTree where
  workingDirectory : Place
  nodes : List (Place × Node)
  temporaries : List Temporary
  deriving DecidableEq

/-- Why an access to a file tree fails. -/
inductive AccessFault where
  | notFound
  | notDirectory
  | isDirectory
  | busy
  | tooManyLinks
  | invalidText
  deriving DecidableEq, Repr

def AccessFault.message : AccessFault → String
  | notFound => "No such file or directory (os error 2)"
  | notDirectory => "Not a directory (os error 20)"
  | isDirectory => "Is a directory (os error 21)"
  | busy => "Device or resource busy (os error 16)"
  | tooManyLinks => "Too many levels of symbolic links (os error 40)"
  | invalidText => "stream did not contain valid UTF-8"

namespace FileTree

def empty (workingDirectory : Place) : FileTree := ⟨workingDirectory, [], []⟩

/-- An identifier that no temporary file has. -/
def freshId (tree : FileTree) : Nat :=
  tree.temporaries.foldr (fun temporary bound => max (temporary.id + 1) bound) 0

/-- The node at a place. The working directory and the directories above it always exist. -/
def node? (tree : FileTree) (place : Place) : Option Node :=
  if place.isPrefixOf tree.workingDirectory then some .directory else tree.nodes.lookup place

def isDirectory (tree : FileTree) (place : Place) : Bool := tree.node? place == some .directory

def erase (tree : FileTree) (place : Place) : FileTree :=
  { tree with nodes := tree.nodes.filter (·.1 != place) }

def put (tree : FileTree) (place : Place) (node : Node) : FileTree :=
  { tree with nodes := tree.nodes.filter (·.1 != place) ++ [(place, node)] }

/-- The places of all nodes, the working directory and the directories above it included. -/
def places (tree : FileTree) : List Place :=
  (List.range (tree.workingDirectory.length + 1)).map (tree.workingDirectory.take ·) ++
    tree.nodes.map (·.1)

theorem mem_places {tree : FileTree} {place : Place} {node : Node}
    (found : tree.node? place = some node) : place ∈ tree.places := by
  unfold node? at found
  split at found
  · next above =>
      refine List.mem_append_left _ (List.mem_map.mpr ⟨place.length, ?_, ?_⟩)
      · have short := (List.isPrefixOf_iff_prefix.mp above).length_le
        exact List.mem_range.mpr (by omega)
      · exact (List.prefix_iff_eq_take.mp (List.isPrefixOf_iff_prefix.mp above)).symm
  · refine List.mem_append_right _ ?_
    obtain ⟨before, after, split, _⟩ := List.lookup_eq_some_iff.mp found
    rw [split]
    simp

/-- The names in a directory, in ascending order. -/
def names (tree : FileTree) (directory : Place) : List String :=
  let below := tree.places.filterMap fun place =>
    if place.dropLast = directory then place.getLast? else none
  below.eraseDups.mergeSort fun first second => decide (first ≤ second)

/-- How many links may be followed on the way to one file. -/
def linkLimit : Nat := 40

/-- The place from which a path is walked, and the segments still to walk. -/
def start (here : Place) (path : Path) : Place × List (List Char) :=
  match path.segments with
  | [] :: first :: rest => ([], first :: rest)
  | segments => (here, segments)

/-- Walks segments from a place that exists. -/
def follow (tree : FileTree) (links : Nat) (here : Place) :
    List (List Char) → Except AccessFault Place
  | [] => .ok here
  | segment :: rest =>
      if tree.isDirectory here then
        if Path.isIdle segment then follow tree links here rest
        else if segment = ['.', '.'] then follow tree links here.dropLast rest
        else
          let place := here ++ [String.ofList segment]
          match tree.node? place with
          | none => .error .notFound
          | some (.link target) =>
              if links = 0 then .error .tooManyLinks
              else
                let (origin, segments) := start here ⟨target⟩
                follow tree (links - 1) origin (segments ++ rest)
          | some _ => follow tree links place rest
      else .error .notDirectory
termination_by segments => (links, segments.length)

/-- The place that a path leads to, links followed. -/
def locate (tree : FileTree) (path : Path) : Except AccessFault Place :=
  if path.text = "" then .error .notFound
  else
    let (origin, segments) := start tree.workingDirectory path
    follow tree linkLimit origin segments

def find (tree : FileTree) (path : Path) : Except AccessFault Node := do
  let place ← tree.locate path
  match tree.node? place with
  | some node => return node
  | none => throw .notFound

def contains (tree : FileTree) (path : Path) : Bool := (tree.find path).toOption.isSome

def isFile (tree : FileTree) (path : Path) : Bool :=
  match tree.find path with
  | .ok (.file _) => true
  | _ => false

/-- The text of a file, which has to be valid UTF-8. -/
def readText (tree : FileTree) (path : Path) : Except AccessFault String := do
  match ← tree.find path with
  | .file content =>
      match String.fromUTF8? content with
      | some text => return text
      | none => throw .invalidText
  | .directory => throw .isDirectory
  | .link _ => throw .tooManyLinks

/-- The place at which a file of the given name is created or replaced: links on the way
are followed, one at the end is not. -/
def destination (tree : FileTree) (path : Path) : Except AccessFault Place :=
  let (origin, segments) := start tree.workingDirectory path
  match segments.reverse.dropWhile List.isEmpty with
  | [] => if path.text = "" then .error .notFound else .error .busy
  | name :: leading => do
      let directory ← follow tree linkLimit origin leading.reverse
      if Path.isIdle name || name = ['.', '.'] then throw .busy
      unless tree.isDirectory directory do throw .notDirectory
      if (segments.getLast?).any List.isEmpty then throw .notDirectory
      return directory ++ [String.ofList name]

/-- The directory at the end of the given segments, made where it is missing. -/
def makeDirectory (tree : FileTree) (here : Place) : List (List Char) → Place × FileTree
  | [] => (here, tree)
  | segment :: rest =>
      match tree.follow linkLimit here [segment] with
      | .ok place => makeDirectory tree place rest
      | .error _ =>
          let place := here ++ [String.ofList segment]
          makeDirectory (tree.put place .directory) place rest

/-- Creates a node at a path, with the directories that lead to it. A file that stands
there is replaced, a directory stays. -/
def create (tree : FileTree) (path : Path) (node : Node) : FileTree :=
  let (origin, segments) := start tree.workingDirectory path
  match (segments.reverse.dropWhile Path.isIdle) with
  | [] => tree
  | name :: leading =>
      let (directory, tree) := makeDirectory tree origin leading.reverse
      let place := directory ++ [String.ofList name]
      if tree.isDirectory place then tree else tree.put place node

/-- The regular files with their contents. -/
def regularFiles (tree : FileTree) : List (Place × ByteArray) :=
  tree.nodes.filterMap fun (place, node) =>
    match node with
    | .file content => some (place, content)
    | _ => none

end FileTree

end FortranDeps

import FortranDeps.Build.Digraph
import FortranDeps.Diagnostic
import Std.Data.HashMap

/-!
The dependency graph of source files. Files keep the order in which they are first
mentioned, and every order that the graph gives breaks ties by it.
-/

namespace FortranDeps.Build

/-- Files in the order of their first mention, with the positions of the files that each
one needs. -/
structure DependencyGraph where
  files : Array Path
  positions : Std.HashMap (List Component) Nat
  edges : Array (List Nat)

namespace DependencyGraph

def empty : DependencyGraph := ⟨#[], {}, #[]⟩

instance : Inhabited DependencyGraph := ⟨empty⟩

abbrev size (graph : DependencyGraph) : Nat := graph.files.size

def position? (graph : DependencyGraph) (file : Path) : Option Nat :=
  graph.positions[file.components]?

def contains (graph : DependencyGraph) (file : Path) : Bool :=
  graph.positions.contains file.components

/-- Mentions a file: one that is not there yet is added at the end and needs nothing. -/
def mention (graph : DependencyGraph) (file : Path) : DependencyGraph :=
  if graph.contains file then graph
  else
    { files := graph.files.push file
      positions := graph.positions.insert file.components graph.files.size
      edges := graph.edges.push [] }

/-- Adds a file with what it needs. Adding a file again replaces what it needs. -/
def addFile (graph : DependencyGraph) (file : Path) (prerequisites : List Path) :
    DependencyGraph :=
  let graph := (file :: prerequisites).foldl mention graph
  match graph.position? file with
  | none => graph
  | some node =>
      let needs := prerequisites.filterMap graph.position?
      { graph with edges := graph.edges.setIfInBounds node needs }

/-- The direct prerequisites of a file. -/
def prerequisites (graph : DependencyGraph) (file : Path) : List Path :=
  match graph.position? file with
  | none => []
  | some node => (graph.edges.getD node []).filterMap (graph.files[·]?)

/-- A number as a node, if it is one. -/
def node? (size : Nat) (number : Nat) : Option (Fin size) :=
  if inside : number < size then some ⟨number, inside⟩ else none

def toDigraph (graph : DependencyGraph) : Digraph graph.size := fun node =>
  (graph.edges.getD node.val []).filterMap (node? graph.size)

def fileAt (graph : DependencyGraph) (node : Fin graph.size) : Path :=
  graph.files[node.val]

/-- Fails with the files on a cycle, if there is one. -/
def checkAcyclic (graph : DependencyGraph) : Except Diagnostic Unit :=
  match graph.toDigraph.findCycle with
  | some cycle => .error (.dependencyCycle (cycle.map graph.fileAt))
  | none => .ok ()

/-- The files in an order in which prerequisites come before the files that need them. -/
def compileOrder (graph : DependencyGraph) : Except Diagnostic (List Path) := do
  let order := graph.toDigraph.order
  if order.length ≠ graph.size then graph.checkAcyclic
  return order.map graph.fileAt

/-- All files that a file needs, directly or indirectly, in the order of their paths. -/
def transitivePrerequisites (graph : DependencyGraph) (file : Path) : List Path :=
  match (graph.position? file).bind (node? graph.size) with
  | none => []
  | some node =>
      ((graph.toDigraph.closure node).map graph.fileAt).mergeSort fun first second =>
        !second.before first

end DependencyGraph

end FortranDeps.Build

import FortranDeps.Command.Run
import FortranDeps.Files.Changes

/-!
The program. It reads the working directory and the paths on the command line into a file
tree, runs the command line on it, and writes the files that have changed.
-/

namespace FortranDeps.Program

def absolutePath (place : Place) : String := "/" ++ String.intercalate "/" place

/-- The place of an absolute path without links. -/
def placeOf (path : String) : Place :=
  ((Text.splitOn '/' path.toList).filter (!Path.isIdle ·)).map String.ofList

/-- Reads a file or directory with all that is below it. What cannot be read is left out. -/
partial def loadPlace (tree : FileTree) (place : Place) : IO FileTree := do
  if (tree.nodes.lookup place).isSome then return tree
  let path ← IO.FS.realPath (absolutePath place)
  let actual := placeOf path.toString
  if actual ≠ place then
    loadPlace (tree.put place (.link (absolutePath actual))) actual
  else if ← path.isDir then
    let mut tree := tree.put place .directory
    for entry in ← path.readDir do
      tree ← try loadPlace tree (place ++ [entry.fileName]) catch _ => pure tree
    return tree
  else
    return tree.put place (.file (← IO.FS.readBinFile path))

/-- Reads a path if it exists. -/
def loadPath (tree : FileTree) (path : String) : IO FileTree := do
  try loadPlace tree (placeOf (← IO.FS.realPath path).toString) catch _ => pure tree

/-- Writes a file beside its destination and moves it there. -/
def writeFile (place : Place) (content : ByteArray) : IO Unit := do
  let path := absolutePath place
  let temporary := path ++ ".part"
  IO.FS.writeBinFile temporary content
  IO.FS.rename temporary path

end FortranDeps.Program

open FortranDeps in
def main (arguments : List String) : IO UInt32 := do
  let here := Program.placeOf (← IO.FS.realPath (← IO.currentDir)).toString
  let mut before := FileTree.empty here
  for path in "." :: arguments do
    before ← Program.loadPath before path
  let (outcome, after) := Command.run before arguments
  for (place, content) in before.written after do
    Program.writeFile place content
  (← IO.getStdout).putStr outcome.output
  (← IO.getStderr).putStr outcome.errors
  return outcome.exitCode.toUInt32

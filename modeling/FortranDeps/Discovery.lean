import FortranDeps.Files.Walk
import FortranDeps.Glob.Parser
import FortranDeps.Settings

/-!
The search for source files. They are listed one by one, or found below root directories
by their extensions. Files that always take part and excluded files are added at the end
if they were not found.
-/

namespace FortranDeps.Discovery

open FortranDeps.Units (SourceFile)

/-- The paths that a manifest lists, one on each line. Blank lines and lines that start
with a hash mark are passed over. -/
def readManifest (tree : FileTree) (manifest : Path) : Except Diagnostic (List Path) :=
  match tree.readText manifest with
  | .error fault => .error (.io manifest fault.message)
  | .ok text =>
      let base := manifest.parent.getD ⟨""⟩
      .ok ((Text.lines text.toList).filterMap fun line =>
        match Text.trim line with
        | [] => none
        | '#' :: _ => none
        | name => some (base.join (String.ofList name)))

def parseIgnore (text : String) : Except Diagnostic Glob.Pattern :=
  match Glob.parse text with
  | .ok pattern => .ok pattern
  | .error fault =>
      .error (.configuration ("invalid ignore pattern '" ++ text ++ "': error parsing glob '" ++
        text ++ "': " ++ fault.message))

/-- Whether a file found below a root is left out: by its path from the root, or by its
name. -/
def isIgnored (ignore : List Glob.Pattern) (found : FileTree.Found) : Bool :=
  let relative := String.intercalate "/" found.relative
  let name := found.path.fileName.getD relative
  ignore.any fun pattern =>
    pattern.accepts relative.toUTF8.toList || pattern.accepts name.toUTF8.toList

def hasExtension (extensions : List String) (path : Path) : Bool :=
  path.extension.any extensions.contains

/-- The sources below a root. -/
def walkRoot (tree : FileTree) (extensions : List String) (ignore : List Glob.Pattern)
    (root : Path) : Except Diagnostic (List Path) :=
  match tree.walk root with
  | .error (.access path fault) => .error (.io path fault.message)
  | .error (.loop path ancestor) =>
      .error (.configuration ("cannot walk " ++ path.text ++ ": File system loop found: " ++
        path.text ++ " points to an ancestor " ++ ancestor.text))
  | .ok found =>
      .ok ((found.filter fun file =>
        hasExtension extensions file.path && !isIgnored ignore file).map (·.path))

/-- The paths that are listed or found, as they are written. -/
def candidates (tree : FileTree) (settings : DiscoverySettings) : Except Diagnostic (List Path) :=
  if settings.isExplicit then do
    let listed ← settings.manifests.mapM (readManifest tree)
    return settings.files ++ listed.flatten
  else do
    let ignore ← settings.ignore.mapM parseIgnore
    let found ← settings.roots.mapM (walkRoot tree settings.extensions ignore)
    return found.flatten

/-- Adds a file that is listed or found, if it is not there yet. -/
def addListed (excluded : List Path) (files : List SourceFile) (path : Path) : List SourceFile :=
  if files.any (·.path.same path) then files
  else files ++ [⟨path, excluded.any (·.same path), false⟩]

/-- Marks the file of a path as one that always takes part. -/
def markAlways (path : Path) : List SourceFile → List SourceFile
  | [] => []
  | file :: rest =>
      if file.path.same path then { file with alwaysInclude := true } :: rest
      else file :: markAlways path rest

/-- Adds a file that always takes part, or marks it if it is there. -/
def addAlways (excluded : List Path) (files : List SourceFile) (path : Path) : List SourceFile :=
  if files.any (·.path.same path) then markAlways path files
  else files ++ [⟨path, excluded.any (·.same path), true⟩]

/-- Adds an excluded file, if it is not there yet. -/
def addExcluded (files : List SourceFile) (path : Path) : List SourceFile :=
  if files.any (·.path.same path) then files else files ++ [⟨path, true, false⟩]

/-- The sources that three lists of paths name, each source once: those that are listed or
found, then those that always take part, then excluded ones. -/
def gather (listed always excluded : List Path) : List SourceFile :=
  let found := listed.foldl (addListed excluded) []
  let completed := always.foldl (addAlways excluded) found
  excluded.foldl addExcluded completed

/-- The sources of a run: the candidates, then files that always take part, then excluded
files, each file once and without dots in its path. -/
def discover (tree : FileTree) (settings : DiscoverySettings) :
    Except Diagnostic (List SourceFile) := do
  let listed ← candidates tree settings
  return gather (listed.map Path.withoutDots) (settings.alwaysInclude.map Path.withoutDots)
    (settings.exclude.map Path.withoutDots)

end FortranDeps.Discovery

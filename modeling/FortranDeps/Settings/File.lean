import FortranDeps.Settings
import FortranDeps.Yaml.Record

/-!
Settings files. A settings file is a YAML document with a record for each group of
settings; everything that it leaves out keeps its standard value.
-/

namespace FortranDeps

open Yaml (Document Fault Fields)

namespace Settings

/-- Numbers of workers are stored in 64 bits. -/
def parallelismLimit : Nat := Nat.pow 2 64

def readPath (node : Yaml.Node) : Except Fault Path := do return ⟨← node.text⟩

def readPaths (document : Document) (node : Yaml.Node) : Except Fault (List Path) := do
  return (← node.texts document).map Path.mk

def readMode (node : Yaml.Node) : Except Fault Units.ErrorMode := do
  match ← node.variant with
  | "accumulate" => return .accumulate
  | "fail-fast" => return .failFast
  | name => throw (.unknownVariant name)

def readDiscovery (document : Document) (node : Yaml.Node) : Except Fault DiscoverySettings := do
  let standard : DiscoverySettings := {}
  let fields ← Fields.ofNode document ["roots", "files", "manifests", "extensions", "ignore",
    "always_include", "exclude"] node
  return {
    roots := ← fields.get "roots" standard.roots (readPaths document)
    files := ← fields.get "files" standard.files (readPaths document)
    manifests := ← fields.get "manifests" standard.manifests (readPaths document)
    extensions := ← fields.get "extensions" standard.extensions (Yaml.Node.texts document)
    ignore := ← fields.get "ignore" standard.ignore (Yaml.Node.texts document)
    alwaysInclude := ← fields.get "always_include" standard.alwaysInclude (readPaths document)
    exclude := ← fields.get "exclude" standard.exclude (readPaths document) }

def readPreprocess (document : Document) (node : Yaml.Node) : Except Fault PreprocessSettings := do
  let standard : PreprocessSettings := {}
  let fields ← Fields.ofNode document ["enabled", "macros", "search_paths"] node
  return {
    enabled := ← fields.get "enabled" standard.enabled Yaml.Node.bool
    seeds := ← fields.get "macros" standard.seeds (Yaml.Node.texts document)
    searchPaths := ← fields.get "search_paths" standard.searchPaths (readPaths document) }

def readResolve (document : Document) (node : Yaml.Node) : Except Fault ResolveSettings := do
  let standard : ResolveSettings := {}
  let fields ← Fields.ofNode document ["skip_modules", "mode", "parallelism"] node
  return {
    skipModules := ← fields.get "skip_modules" standard.skipModules (Yaml.Node.texts document)
    mode := ← fields.get "mode" standard.mode readMode
    parallelism :=
      ← fields.get "parallelism" standard.parallelism (Yaml.Node.natural parallelismLimit) }

def readOutput (document : Document) (node : Yaml.Node) : Except Fault OutputSettings := do
  let standard : OutputSettings := {}
  let fields ← Fields.ofNode document ["listing", "manifest", "object_prefix", "object_extension",
    "overwrite", "link_rules"] node
  return {
    listing := ← fields.get "listing" standard.listing readPath
    manifest := ← fields.get "manifest" standard.manifest readPath
    objectDirectory := ← fields.get "object_prefix" standard.objectDirectory Yaml.Node.text
    objectExtension := ← fields.get "object_extension" standard.objectExtension Yaml.Node.text
    overwrite := ← fields.get "overwrite" standard.overwrite Yaml.Node.bool
    linkRules := ← fields.get "link_rules" standard.linkRules Yaml.Node.bool }

def ofDocument (document : Document) : Except Fault Settings := do
  let root := document.resolve (document.root.getD .absent)
  let fields ← Fields.ofNode document ["discovery", "preprocess", "resolve", "output"] root
  return {
    discovery := ← fields.get "discovery" {} (readDiscovery document)
    preprocess := ← fields.get "preprocess" {} (readPreprocess document)
    resolve := ← fields.get "resolve" {} (readResolve document)
    output := ← fields.get "output" {} (readOutput document) }

/-- Reads settings from the text of a settings file. -/
def parse (text : String) : Except Fault Settings := do ofDocument (← Document.parse text)

/-- Reads a settings file. -/
def load (tree : FileTree) (path : Path) : Except Diagnostic Settings :=
  match tree.readText path with
  | .error fault => .error (.io path fault.message)
  | .ok text =>
      match parse text with
      | .ok settings => .ok settings
      | .error fault => .error (.configuration (path.text ++ ": " ++ fault.message))

end Settings

end FortranDeps

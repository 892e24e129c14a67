import FortranDeps.Command.Arguments
import FortranDeps.Settings

/-!
What a command line asks for. Options of the whole program may stand before and after the
name of a command; those after it count.
-/

namespace FortranDeps.Command

/-- Options that every command knows. -/
def sharedOptions : List OptionSpec := [
  ⟨.config, some 'c', "config", .single .path⟩,
  ⟨.verbose, some 'v', "verbose", .count⟩,
  ⟨.help, some 'h', "help", .information⟩]

/-- Options before the name of a command. -/
def programOptions : List OptionSpec :=
  sharedOptions ++ [⟨.version, some 'V', "version", .information⟩]

def preprocessorOptions : List OptionSpec := [
  ⟨.define, some 'D', "define", .many .text⟩,
  ⟨.includePath, some 'I', "include", .many .path⟩]

/-- Options of commands that work on a whole project. -/
def projectOptions : List OptionSpec := preprocessorOptions ++ [
  ⟨.root, some 'r', "root", .many .path⟩,
  ⟨.file, some 'f', "file", .many .path⟩,
  ⟨.manifestIn, none, "manifest-in", .many .path⟩,
  ⟨.extension, some 'e', "ext", .many .text⟩,
  ⟨.ignore, none, "ignore", .many .text⟩,
  ⟨.alwaysInclude, none, "always-include", .many .path⟩,
  ⟨.exclude, none, "exclude", .many .path⟩,
  ⟨.skip, some 's', "skip", .many .text⟩,
  ⟨.noPreprocess, none, "no-preprocess", .switch⟩,
  ⟨.failFast, none, "fail-fast", .switch⟩,
  ⟨.jobs, some 'j', "jobs", .single .number⟩]

def listingOptions : List OptionSpec := [
  ⟨.output, some 'o', "output", .single .path⟩,
  ⟨.manifest, some 'm', "manifest", .single .path⟩,
  ⟨.objectDirectory, some 'p', "object-prefix", .single .text⟩,
  ⟨.objectExtension, none, "object-ext", .single .text⟩,
  ⟨.overwrite, none, "overwrite", .switch⟩,
  ⟨.linkRules, none, "link-rules", .switch⟩]

def orderOptions : List OptionSpec := [⟨.format, none, "format", .single (.oneOf ["text", "json"])⟩]

def fileOptions : List OptionSpec := [
  ⟨.output, some 'o', "output", .single .path⟩,
  ⟨.overwrite, none, "overwrite", .switch⟩]

inductive CommandName where
  | deps
  | order
  | preprocess
  deriving DecidableEq, Repr

namespace CommandName

def ofText? : String → Option CommandName
  | "deps" => some deps
  | "order" => some order
  | "preprocess" => some preprocess
  | _ => none

def options : CommandName → List OptionSpec
  | deps => sharedOptions ++ projectOptions ++ listingOptions
  | order => sharedOptions ++ projectOptions ++ orderOptions
  | preprocess => sharedOptions ++ preprocessorOptions ++ fileOptions

/-- How many words a command takes. -/
def wordLimit : CommandName → Nat
  | preprocess => 1
  | _ => 0

end CommandName

inductive Format where
  | text
  | json
  deriving DecidableEq, Repr

inductive Action where
  /-- Write the listing. -/
  | deps
  /-- Print the compile order. -/
  | order (format : Format)
  /-- Preprocess a file, and print the result or write it to a file. -/
  | preprocess (input : Path) (output : Option Path) (overwrite : Bool)
  deriving DecidableEq, Repr

/-- A settings file, changes to the settings, and what to do with them. -/
structure Request where
  config : Option Path
  changes : Arguments
  action : Action
  deriving DecidableEq, Repr

def toAction (name : CommandName) (arguments : Arguments) : Except Stop Action :=
  match name with
  | .deps => .ok .deps
  | .order => .ok (.order (if arguments.value? .format = some "json" then .json else .text))
  | .preprocess =>
      match arguments.words with
      | [] | "" :: _ => .error .missingInput
      | input :: _ =>
          .ok (.preprocess ⟨input⟩ ((arguments.value? .output).map Path.mk)
            (arguments.has .overwrite))

/-- Reads the arguments of a command after its name, and those before it. -/
def readCommand (before : Arguments) (name : CommandName) (rest : List String) :
    Except Stop Request := do
  let arguments ← Arguments.readAll name.options name.wordLimit {} rest
  let config := (arguments.value? .config).or (before.value? .config)
  return ⟨config.map Path.mk, arguments, ← toAction name arguments⟩

/-- Reads a command line from the given options on. -/
def readProgram (before : Arguments) : List String → Except Stop Request
  | [] => do
      before.requireSettled
      throw .missingCommand
  | argument :: rest =>
      match before.pending.isNone && !before.onlyWords, CommandName.ofText? argument with
      | true, some name => readCommand before name rest
      | _, _ => do
          let before ← before.read programOptions argument
          unless before.words.isEmpty do throw (.unknownCommand argument)
          readProgram before rest

/-- Reads a command line. -/
def Request.parse (arguments : List String) : Except Stop Request := readProgram {} arguments

/-- Changes to the settings of the preprocessor. -/
def changePreprocess (given : Arguments) (settings : PreprocessSettings) : PreprocessSettings :=
  { enabled := settings.enabled && !given.has .noPreprocess
    seeds := settings.seeds ++ given.values .define
    searchPaths := settings.searchPaths ++ (given.values .includePath).map Path.mk }

def paths (given : Arguments) (name : OptionName) : List Path := (given.values name).map Path.mk

/-- Roots, files and extensions are replaced; everything else is added. -/
def changeDiscovery (given : Arguments) (settings : DiscoverySettings) : DiscoverySettings :=
  let extensions := (given.values .extension).map fun extension =>
    String.ofList (extension.toList.dropWhile (· == '.'))
  { roots := if given.has .root then paths given .root else settings.roots
    files := if given.has .file then paths given .file else settings.files
    manifests := settings.manifests ++ paths given .manifestIn
    extensions := if given.has .extension then extensions else settings.extensions
    ignore := settings.ignore ++ given.values .ignore
    alwaysInclude := settings.alwaysInclude ++ paths given .alwaysInclude
    exclude := settings.exclude ++ paths given .exclude }

def changeResolve (given : Arguments) (settings : ResolveSettings) : ResolveSettings :=
  { skipModules := settings.skipModules ++ given.values .skip
    mode := if given.has .failFast then .failFast else settings.mode
    parallelism := ((given.value? .jobs).bind number?).getD settings.parallelism }

def changeOutput (given : Arguments) (settings : OutputSettings) : OutputSettings :=
  { listing := ((given.value? .output).map Path.mk).getD settings.listing
    manifest := ((given.value? .manifest).map Path.mk).getD settings.manifest
    objectDirectory := (given.value? .objectDirectory).getD settings.objectDirectory
    objectExtension := (given.value? .objectExtension).getD settings.objectExtension
    overwrite := settings.overwrite || given.has .overwrite
    linkRules := settings.linkRules || given.has .linkRules }

/-- The settings of a request, given those of its settings file. -/
def Request.settings (request : Request) (settings : Settings) : Settings :=
  { discovery := changeDiscovery request.changes settings.discovery
    preprocess := changePreprocess request.changes settings.preprocess
    resolve := changeResolve request.changes settings.resolve
    output := match request.action with
      | .deps => changeOutput request.changes settings.output
      | _ => settings.output }

end FortranDeps.Command

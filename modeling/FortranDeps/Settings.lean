import FortranDeps.Build.Resolution
import FortranDeps.Units.Scan

/-!
The settings of a run, with the values they have when nothing else is said.
-/

namespace FortranDeps

open FortranDeps.Units (ErrorMode)

/-- Which files take part. -/
structure DiscoverySettings where
  /-- Directories that are searched if no files are listed. -/
  roots : List Path := [⟨"."⟩]
  files : List Path := []
  /-- Files that list source files, relative to their own directory. -/
  manifests : List Path := []
  extensions : List String := ["f90", "F90"]
  /-- Globs of files that the search leaves out. -/
  ignore : List String := []
  alwaysInclude : List Path := []
  exclude : List Path := []
  deriving DecidableEq, Repr

structure PreprocessSettings where
  enabled : Bool := true
  seeds : List String := []
  searchPaths : List Path := []
  deriving DecidableEq, Repr

structure ResolveSettings where
  skipModules : List String := Build.SkipSet.compilerModules
  mode : ErrorMode := .accumulate
  /-- The number of workers; zero leaves the choice to the program. It has no influence on
  any result. -/
  parallelism : Nat := 0
  deriving DecidableEq, Repr

structure OutputSettings where
  listing : Path := ⟨"depends.mak"⟩
  manifest : Path := ⟨"objects.mak"⟩
  objectDirectory : String := ""
  objectExtension : String := "o"
  overwrite : Bool := false
  linkRules : Bool := false
  deriving DecidableEq, Repr

structure Settings where
  discovery : DiscoverySettings := {}
  preprocess : PreprocessSettings := {}
  resolve : ResolveSettings := {}
  output : OutputSettings := {}
  deriving DecidableEq, Repr

/-- Whether sources are listed one by one, so that no directory is searched. -/
def DiscoverySettings.isExplicit (settings : DiscoverySettings) : Bool :=
  !settings.files.isEmpty || !settings.manifests.isEmpty

/-- Whether sources are found by searching directories. -/
def Settings.isAutomatic (settings : Settings) : Bool := !settings.discovery.isExplicit

end FortranDeps

/-!
The dependency listing and the object manifest, in the form of make rules with one
prerequisite each.
-/

namespace FortranDeps.Build

/-- The comment at the top of every generated file. -/
def header : String := "#\n# This file is generated automatically. DO NOT EDIT!\n#\n"

structure Rule where
  target : String
  prerequisite : String
  deriving DecidableEq, Repr

def Rule.text (rule : Rule) : String := rule.target ++ " : " ++ rule.prerequisite

structure Listing where
  edges : List Rule
  linkRules : List Rule
  deriving DecidableEq, Repr

/-- Texts in ascending order. -/
def sorted (texts : List String) : List String :=
  texts.mergeSort fun first second => decide (first ≤ second)

namespace Listing

def empty : Listing := ⟨[], []⟩

/-- Adds the prerequisites of an object, in ascending order and each once. -/
def addTarget (listing : Listing) (target : String) (prerequisites : List String) : Listing :=
  let rules := (sorted prerequisites).eraseReps.map (Rule.mk target)
  { listing with edges := listing.edges ++ rules }

/-- Adds the objects of a program, as they are given. -/
def addLinkRule (listing : Listing) (program : String) (objects : List String) : Listing :=
  { listing with linkRules := listing.linkRules ++ objects.map (Rule.mk program) }

def renderRules (rules : List Rule) : String :=
  String.join (rules.map fun rule => rule.text ++ "\n")

def render (listing : Listing) : String :=
  header ++ renderRules listing.edges ++
    (if listing.linkRules.isEmpty then "" else "\n# link rules\n" ++ renderRules listing.linkRules)

end Listing

/-- The object manifest: one object on each line. -/
def renderManifest (objects : List String) : String :=
  header ++ String.join (objects.map (· ++ "\n"))

end FortranDeps.Build

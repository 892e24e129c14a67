import FortranDeps.Diagnostic
import FortranDeps.Preprocess.Directive

/-!
The table of defined names. It answers whether a name is defined, which is all that a
conditional block asks, and gives the text that replaces a name. Entries are kept in
ascending order of their names, so two tables that agree on every name are equal.
-/

namespace FortranDeps.Preprocess

/-- Defined names with their values; a bare name has none. -/
structure MacroTable where
  entries : List (String × Option String)
  ascending : entries.Pairwise fun first second => first.1 < second.1
  deriving DecidableEq

namespace MacroTable

def empty : MacroTable := ⟨[], .nil⟩

instance : Inhabited MacroTable := ⟨empty⟩

def insertEntry (name : String) (value : Option String) :
    List (String × Option String) → List (String × Option String)
  | [] => [(name, value)]
  | entry :: rest =>
      if name < entry.1 then (name, value) :: entry :: rest
      else if entry.1 < name then entry :: insertEntry name value rest
      else (name, value) :: rest

theorem mem_insert_entry {name : String} {value : Option String}
    {entries : List (String × Option String)} {entry : String × Option String}
    (member : entry ∈ insertEntry name value entries) :
    entry = (name, value) ∨ entry ∈ entries := by
  induction entries with
  | nil => simpa [insertEntry] using member
  | cons head rest induction =>
      simp only [insertEntry] at member
      split at member
      · simpa using member
      · split at member
        · rcases List.mem_cons.mp member with same | later
          · exact .inr (by simp [same])
          · exact (induction later).imp id (List.mem_cons_of_mem _)
        · rcases List.mem_cons.mp member with same | later
          · exact .inl same
          · exact .inr (List.mem_cons_of_mem _ later)

theorem insert_entry_ascending {entries : List (String × Option String)}
    (ascending : entries.Pairwise fun first second => first.1 < second.1)
    (name : String) (value : Option String) :
    (insertEntry name value entries).Pairwise fun first second => first.1 < second.1 := by
  induction entries with
  | nil => simp [insertEntry]
  | cons head rest induction =>
      have tail := List.pairwise_cons.mp ascending
      simp only [insertEntry]
      split
      · next smaller =>
          refine List.pairwise_cons.mpr ⟨?_, ascending⟩
          intro entry member
          rcases List.mem_cons.mp member with same | later
          · simpa [same] using smaller
          · exact String.lt_trans smaller (tail.1 entry later)
      · next notSmaller =>
          split
          · next larger =>
              refine List.pairwise_cons.mpr ⟨?_, induction tail.2⟩
              intro entry member
              rcases mem_insert_entry member with same | later
              · simpa [same] using larger
              · exact tail.1 entry later
          · next notLarger =>
              have same : head.1 = name :=
                String.le_antisymm (String.not_lt.mp notSmaller) (String.not_lt.mp notLarger)
              refine List.pairwise_cons.mpr ⟨?_, tail.2⟩
              intro entry later
              simpa [same] using tail.1 entry later

/-- Defines a name; an earlier definition is replaced. -/
def define (table : MacroTable) (name : String) (value : Option String) : MacroTable :=
  ⟨insertEntry name value table.entries, insert_entry_ascending table.ascending name value⟩

def undefine (table : MacroTable) (name : String) : MacroTable :=
  ⟨table.entries.filter (·.1 != name), table.ascending.sublist List.filter_sublist⟩

/-- The definition of a name: whether there is one, and if so its value. -/
def get? (table : MacroTable) (name : String) : Option (Option String) := table.entries.lookup name

def isDefined (table : MacroTable) (name : String) : Bool := (table.get? name).isSome

def value? (table : MacroTable) (name : String) : Option String := (table.get? name).join

def size (table : MacroTable) : Nat := table.entries.length

def isEmpty (table : MacroTable) : Bool := table.entries.isEmpty

/-- What replaces a name defined with the given value: a bare name stands for one. -/
def substitution (value : Option String) : String := value.getD "1"

end MacroTable

/-- A definition given from outside a source file. -/
structure Seed where
  name : String
  value : Option String
  deriving DecidableEq, Repr

namespace Seed

/-- Reads a seed, which is a name or a name and a value with an equals sign between. -/
def parse (text : String) : Except Diagnostic Seed :=
  let chars := text.toList
  let name := Text.trim (chars.takeWhile (· ≠ '='))
  if Directive.isIdentifier name then
    let value := match chars.dropWhile (· ≠ '=') with
      | [] => none
      | _ :: rest => some (String.ofList (Text.trim rest))
    .ok ⟨String.ofList name, value⟩
  else
    .error (.configuration ("invalid macro definition '" ++ text ++ "': '" ++ String.ofList name ++
      "' is not a valid name"))

end Seed

/-- The table that holds the given seeds; of two with the same name the later one wins. -/
def MacroTable.ofSeeds (seeds : List String) : Except Diagnostic MacroTable :=
  seeds.foldlM (fun table text => do
    let seed ← Seed.parse text
    return table.define seed.name seed.value) MacroTable.empty

end FortranDeps.Preprocess

import FortranDeps.Proofs.Build.Resolution

/-!
What becomes of the uses of a module between the scan of a file and its resolution. Of all
uses of a module the scan keeps the first one, together with its mark. If that one is marked
as intrinsic, a plain use that follows is lost with it: the module is neither resolved nor
reported as missing.
-/

namespace FortranDeps.Units

def lineUse? (line : Line) : Option (Statement Bool) := useStatement? line.text.toList

/-- A line uses a module, and marks it as intrinsic or not. -/
def LineUses (line : Line) (name : String) (intrinsic : Bool) : Prop :=
  ∃ statement, lineUse? line = some statement ∧ statement.unitName = name ∧
    statement.property = intrinsic

theorem used_module_eq (file : Path) (line : Line) :
    usedModule? file line = (lineUse? line).map fun statement =>
      ⟨file, statement.unitName, statement.property, line.location.line⟩ := by
  unfold usedModule? lineUse?
  cases useStatement? line.text.toList <;> rfl

/-- The mark of the first use of a module. -/
def firstMark? (lines : List Line) (name : String) : Option Bool :=
  ((lines.filterMap lineUse?).find? (·.unitName == name)).map (·.property)

theorem exists_first_mark {lines : List Line} {name : String} {intrinsic : Bool}
    (used : ∃ line ∈ lines, LineUses line name intrinsic) :
    ∃ mark, firstMark? lines name = some mark := by
  obtain ⟨line, member, statement, found, named, -⟩ := used
  have some : ((lines.filterMap lineUse?).find? (·.unitName == name)).isSome = true := by
    rw [List.find?_isSome]
    exact ⟨statement, List.mem_filterMap.mpr ⟨line, member, found⟩, by simp [named]⟩
  obtain ⟨first, same⟩ := Option.isSome_iff_exists.mp some
  exact ⟨first.property, by rw [firstMark?, same, Option.map_some]⟩

theorem first_mark_eq (file : Path) (lines : List Line) (name : String) :
    firstMark? lines name =
      ((lines.filterMap (usedModule? file)).find? (·.name == name)).map (·.intrinsic) := by
  unfold firstMark?
  induction lines with
  | nil => rfl
  | cons line rest induction =>
      cases found : lineUse? line with
      | none =>
          have edge : usedModule? file line = none := by rw [used_module_eq, found]; rfl
          rw [List.filterMap_cons_none found, List.filterMap_cons_none edge, induction]
      | some statement =>
          have edge : usedModule? file line =
              some ⟨file, statement.unitName, statement.property, line.location.line⟩ := by
            rw [used_module_eq, found]
            rfl
          rw [List.filterMap_cons_some found, List.filterMap_cons_some edge, List.find?_cons,
            List.find?_cons]
          cases statement.unitName == name with
          | true => rfl
          | false => exact induction

/-- An edge is kept exactly if it is the first one to its module. -/
theorem mem_first_uses {edges : List UseEdge} {edge : UseEdge} :
    edge ∈ firstUses edges ↔ edges.find? (·.name == edge.name) = some edge := by
  induction edges with
  | nil => simp [firstUses]
  | cons first rest induction =>
      rw [firstUses, List.mem_cons, List.mem_filter, induction, List.find?_cons]
      by_cases same : first.name = edge.name
      · simp [same, eq_comm]
      · have differ : edge ≠ first := by
          rintro rfl
          exact same rfl
        simp [beq_false_of_ne same, differ, Ne.symm same]

theorem mem_find_uses {file : Path} {lines : List Line} {edge : UseEdge}
    (member : edge ∈ findUses file lines) :
    edge.file = file ∧ firstMark? lines edge.name = some edge.intrinsic := by
  have first := mem_first_uses.mp member
  constructor
  · obtain ⟨line, -, found⟩ := List.mem_filterMap.mp (List.mem_of_find?_eq_some first)
    obtain ⟨statement, -, rfl⟩ := Option.map_eq_some_iff.mp (used_module_eq file line ▸ found)
    rfl
  · rw [first_mark_eq file, first, Option.map_some]

theorem exists_edge {lines : List Line} {name : String} {mark : Bool}
    (first : firstMark? lines name = some mark) (file : Path) :
    ∃ edge ∈ findUses file lines, edge.name = name ∧ edge.intrinsic = mark := by
  rw [first_mark_eq file] at first
  obtain ⟨edge, found, same⟩ := Option.map_eq_some_iff.mp first
  have named : edge.name = name := by simpa using List.find?_some found
  subst named
  exact ⟨edge, mem_first_uses.mpr found, rfl, same⟩

end FortranDeps.Units

namespace FortranDeps.Build

open FortranDeps.Units

/-- What the scan of a file makes of its lines. -/
def scannedLines (source : SourceFile) (declaration : Declaration) (lines : List Line) :
    ScannedFile :=
  ⟨source, declaration, if source.excluded then [] else findUses source.path lines⟩

/-- The outcome of a resolution accounts for a module: a module that no file defines is
reported, and the file that defines a module is needed, unless it is the file itself. -/
def AccountsFor (user : Path) (index : SymbolIndex) (name : String) :
    Except (List Diagnostic) (List Path) → Prop
  | .error failures => index.lookup name = none → .unresolvedModule name user ∈ failures
  | .ok prerequisites => ∃ defining, index.lookup name = some defining ∧
      (defining.components = user.components ∨
        defining.components ∈ prerequisites.map Path.components)

variable {file : ScannedFile} {index : SymbolIndex} {skip : SkipSet} {edge : UseEdge}

/-- An edge that has to be resolved is accounted for. -/
theorem accounts_for_edge (inside : edge ∈ file.uses) (own : edge.file = file.source.path)
    (plain : edge.intrinsic = false) (kept : skip.contains edge.name = false) :
    AccountsFor file.source.path index edge.name (resolve file index skip) := by
  cases found : index.lookup edge.name with
  | none =>
      have missing : resolveUse file.source.path index skip edge = .missing := by
        simp [resolveUse, plain, kept, found]
      obtain ⟨failures, failed⟩ := resolve_of_missing inside missing
      rw [failed]
      intro _
      exact (mem_failures failed).mpr ⟨edge, inside, missing, by rw [own]⟩
  | some defining =>
      cases outcome : resolve file index skip with
      | error failures =>
          intro undefined
          rw [found] at undefined
          cases undefined
      | ok prerequisites =>
          refine ⟨defining, found, ?_⟩
          by_cases same : defining.components = file.source.path.components
          · exact .inl same
          · apply Or.inr
            apply (mem_resolve outcome).mpr
            exact ⟨edge, inside, defining, resolve_use_eq_needs.mpr ⟨plain, kept, found, same⟩, rfl⟩

/-- A module that is not among the edges is not reported. -/
theorem not_accounts_for_unused {name : String} (unused : ∀ edge ∈ file.uses, edge.name ≠ name)
    (undefined : index.lookup name = none) :
    ¬AccountsFor file.source.path index name (resolve file index skip) := by
  cases outcome : resolve file index skip with
  | error failures =>
      intro accounted
      obtain ⟨edge, inside, -, same⟩ := (mem_failures outcome).mp (accounted undefined)
      injection same with named _
      exact unused edge inside named.symm
  | ok prerequisites =>
      rintro ⟨defining, found, -⟩
      rw [undefined] at found
      cases found

/-- A plain use of a module is accounted for, whatever the index, exactly if the first use of
the module is not marked as intrinsic. Otherwise the outcome is that of a file that does not
use the module at all. -/
theorem plain_use_accounted_iff (source : SourceFile) (declaration : Declaration)
    (lines : List Line) (skip : SkipSet) (name : String) (checked : source.excluded = false)
    (used : ∃ line ∈ lines, LineUses line name false) (kept : skip.contains name = false) :
    ((∀ index, AccountsFor source.path index name
        (resolve (scannedLines source declaration lines) index skip)) ↔
      firstMark? lines name = some false) ∧
    (firstMark? lines name = some true → ∀ index,
      resolve (scannedLines source declaration lines) index skip =
        resolve ⟨source, declaration,
          (scannedLines source declaration lines).uses.filter (·.name != name)⟩ index skip) := by
  generalize scanned : scannedLines source declaration lines = file
  have uses : file.uses = findUses source.path lines := by
    simp [← scanned, scannedLines, checked]
  obtain rfl : source = file.source := by rw [← scanned]; rfl
  obtain rfl : declaration = file.declaration := by rw [← scanned]; rfl
  have lost (marked : firstMark? lines name = some true) (index : SymbolIndex) :
      resolve file index skip =
        resolve { file with uses := file.uses.filter (·.name != name) } index skip := by
    apply Eq.symm
    apply resolve_without
    intro edge inside same
    have named : edge.name = name := by simpa using same
    rw [uses] at inside
    have first := (mem_find_uses inside).2
    rw [named, marked, Option.some.injEq] at first
    simp [resolveUse, ← first]
  refine ⟨⟨?_, ?_⟩, lost⟩
  · intro all
    obtain ⟨mark, first⟩ := exists_first_mark used
    cases mark with
    | false => exact first
    | true =>
        have accounted := all SymbolIndex.empty
        rw [lost first] at accounted
        have unused : ∀ edge ∈ file.uses.filter (·.name != name), edge.name ≠ name := by
          intro edge inside
          simpa using (List.mem_filter.mp inside).2
        exact absurd accounted (not_accounts_for_unused unused rfl)
  · intro first index
    obtain ⟨edge, inside, rfl, plain⟩ := exists_edge first file.source.path
    have own := (mem_find_uses inside).1
    rw [← uses] at inside
    exact accounts_for_edge inside own plain kept

/-- A module that is used twice, first with a mark. -/
def markedLines : List Line :=
  [⟨"module a", ⟨"a.f90", 1⟩⟩, ⟨" use, intrinsic :: m", ⟨"a.f90", 2⟩⟩, ⟨" use m", ⟨"a.f90", 3⟩⟩]

def markedFile : ScannedFile :=
  scannedLines ⟨⟨"a.f90"⟩, false, false⟩ ⟨⟨"a.f90"⟩, .moduleUnit, "a"⟩ markedLines

def markedIndex : SymbolIndex :=
  ⟨[("a", ⟨⟨"a.f90"⟩, .moduleUnit⟩), ("m", ⟨⟨"m.f90"⟩, .moduleUnit⟩)]⟩

/-- The file that defines the module is not needed. -/
theorem marked_use_hides_plain_use :
    (∃ line ∈ markedLines, LineUses line "m" false) ∧
      markedIndex.lookup "m" = some ⟨"m.f90"⟩ ∧
      resolve markedFile markedIndex (.withDefaults []) = .ok [] ∧
      ¬∀ index, AccountsFor ⟨"a.f90"⟩ index "m" (resolve markedFile index (.withDefaults [])) := by
  have plain : LineUses ⟨" use m", ⟨"a.f90", 3⟩⟩ "m" false :=
    ⟨⟨false, " use ".toList, "m".toList, []⟩, by cbv, by cbv, rfl⟩
  have used : ∃ line ∈ markedLines, LineUses line "m" false := ⟨_, by simp [markedLines], plain⟩
  have first : firstMark? markedLines "m" = some true := by cbv
  refine ⟨used, by decide +kernel, by cbv, ?_⟩
  intro all
  have unmarked := (plain_use_accounted_iff ⟨⟨"a.f90"⟩, false, false⟩ ⟨⟨"a.f90"⟩, .moduleUnit, "a"⟩
    markedLines (.withDefaults []) "m" rfl used (by decide +kernel)).1.mp all
  rw [first] at unmarked
  cases unmarked

end FortranDeps.Build

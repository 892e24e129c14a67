import FortranDeps.Proofs.Build.Listing
import FortranDeps.Proofs.Project.Reporting

/-!
Names and objects that are taken twice. An index and an assignment of objects keep the first
item of each key and report every later one, in the order of the items and each with the first
item of its key. So nothing is reported exactly if no key is repeated.
-/

namespace FortranDeps.Build

open FortranDeps.Units FortranDeps.Project

section Repeats

variable {Item Key Report : Type} [DecidableEq Key] (key : Item → Key)
  (report : Item → Item → Report)

/-- A report for each item whose key an earlier item has, in the order of the items. It is about
the first item with that key and the item itself. -/
def repeats (items : List Item) : List Report :=
  items.zipIdx.filterMap fun (item, place) =>
    ((items.take place).find? (key · = key item)).map (report · item)

theorem repeats_append_singleton (items : List Item) (item : Item) :
    repeats key report (items ++ [item]) =
      repeats key report items ++
        ((items.find? (key · = key item)).map (report · item)).toList := by
  unfold repeats
  rw [List.zipIdx_append, List.filterMap_append]
  congr 1
  · apply List.filterMap_congr
    rintro ⟨other, place⟩ member
    have inside : place < items.length := (List.mem_zipIdx' member).1
    dsimp only
    rw [List.take_append_of_le_length (Nat.le_of_lt inside)]
  · cases found : items.find? (key · = key item) <;> simp [found]

theorem repeats_congr {items : List Item} {other : Item → Item → Report}
    (agree : ∀ first ∈ items, ∀ second ∈ items, report first second = other first second) :
    repeats key report items = repeats key other items := by
  apply List.filterMap_congr
  rintro ⟨item, place⟩ member
  apply Option.map_congr
  intro first found
  have inFirst := List.mem_of_mem_take (List.mem_of_find?_eq_some found)
  exact agree first inFirst item (List.fst_mem_of_mem_zipIdx member)

theorem repeats_map {Source : Type} (toItem : Source → Item) (sources : List Source) :
    repeats key report (sources.map toItem) =
      repeats (fun source => key (toItem source))
        (fun first second => report (toItem first) (toItem second)) sources := by
  induction sources using List.reverseRecOn with
  | nil => rfl
  | append_singleton sources source induction =>
      rw [List.map_append, List.map_singleton, repeats_append_singleton, induction,
        repeats_append_singleton, List.find?_map, Option.map_map]
      rfl

theorem repeats_eq_nil_iff {items : List Item} :
    repeats key report items = [] ↔ (items.map key).Nodup := by
  induction items using List.reverseRecOn with
  | nil => exact iff_of_true rfl List.nodup_nil
  | append_singleton items item induction =>
      rw [repeats_append_singleton, List.append_eq_nil_iff, induction, Option.toList_eq_nil_iff,
        Option.map_eq_none_iff, List.find?_eq_none, List.map_append, List.map_singleton,
        List.nodup_append']
      simp

/-- An item is the first one with its key if no key is repeated. -/
theorem find?_key_iff {items : List Item} (distinct : (items.map key).Nodup)
    {name : Key} {item : Item} :
    items.find? (key · = name) = some item ↔ item ∈ items ∧ key item = name := by
  constructor
  · intro found
    exact ⟨List.mem_of_find?_eq_some found, by simpa using List.find?_some found⟩
  · rintro ⟨member, rfl⟩
    cases found : items.find? (key · = key item) with
    | none => simpa using List.find?_eq_none.mp found item member
    | some other =>
        have same : key other = key item := by simpa using List.find?_some found
        have inOther := List.mem_of_find?_eq_some found
        rw [List.inj_on_of_nodup_map distinct inOther member same]

/-- What is found by its key does not depend on the order of the items. -/
theorem find?_key_perm {items others : List Item} (perm : others.Perm items)
    (distinct : (items.map key).Nodup) (name : Key) :
    others.find? (key · = name) = items.find? (key · = name) := by
  apply Option.ext
  intro item
  rw [find?_key_iff key ((perm.map key).nodup_iff.mpr distinct), find?_key_iff key distinct,
    perm.mem_iff]

end Repeats

/-! The index. -/

/-- What a scanned file adds to the index. -/
def definitionOf (file : ScannedFile) : Definition :=
  ⟨file.declaration.file, file.declaration.kind⟩

/-- The index of the files, with the clashes of their names. -/
def gatherIndex (files : List ScannedFile) : SymbolIndex × List Diagnostic :=
  gather indexFile SymbolIndex.empty files

theorem index_complains : Complains indexFile :=
  fun index file => or_fail_ne_nil (index.insert file.declaration)

theorem gather_index_append_singleton (files : List ScannedFile) (file : ScannedFile) :
    gatherIndex (files ++ [file]) = gatherStep indexFile (gatherIndex files) file :=
  gather_append_singleton SymbolIndex.empty files file

theorem index_step_taken {state : SymbolIndex × List Diagnostic} {file : ScannedFile}
    {earlier : Definition} (taken : state.1.get? file.declaration.name = some earlier) :
    gatherStep indexFile state file = (state.1, state.2 ++
      [.duplicateDefinition file.declaration.name earlier.file file.declaration.file]) := by
  unfold gatherStep indexFile SymbolIndex.insert
  rw [taken]
  rfl

theorem index_step_free {state : SymbolIndex × List Diagnostic} {file : ScannedFile}
    (free : state.1.get? file.declaration.name = none) :
    gatherStep indexFile state file =
      (⟨state.1.units ++ [(file.declaration.name, definitionOf file)]⟩, state.2) := by
  unfold gatherStep indexFile SymbolIndex.insert
  rw [free]
  exact congrArg (Prod.mk _) (List.append_nil state.2)

/-- A name stands for the first file that declares it. -/
theorem get?_gather_index (files : List ScannedFile) (name : String) :
    (gatherIndex files).1.get? name =
      (files.find? (·.declaration.name = name)).map definitionOf := by
  induction files using List.reverseRecOn generalizing name with
  | nil => rfl
  | append_singleton files file induction =>
      -- A name that is taken keeps its definition, and a new one is found behind all others.
      rw [gather_index_append_singleton, List.find?_append, Option.map_or, ← induction name]
      cases taken : (gatherIndex files).1.get? file.declaration.name with
      | some earlier =>
          rw [index_step_taken taken]
          by_cases same : file.declaration.name = name
          · rw [← same, taken]
            rfl
          · simp [same]
      | none =>
          rw [index_step_free taken]
          unfold SymbolIndex.get?
          rw [List.lookup_append]
          by_cases same : file.declaration.name = name
          · simp [same, List.lookup]
          · simp [same, List.lookup, beq_false_of_ne (Ne.symm same)]

/-- The clashes are the files whose names earlier files have declared. -/
theorem clashes_gather_index (files : List ScannedFile) :
    (gatherIndex files).2 = repeats (·.declaration.name) (fun first file =>
      .duplicateDefinition file.declaration.name first.declaration.file file.declaration.file)
        files := by
  induction files using List.reverseRecOn with
  | nil => rfl
  | append_singleton files file induction =>
      rw [gather_index_append_singleton, repeats_append_singleton, ← induction]
      have known := get?_gather_index files file.declaration.name
      cases found : files.find? (·.declaration.name = file.declaration.name) with
      | none =>
          rw [found] at known
          rw [index_step_free known]
          simp
      | some first =>
          rw [found] at known
          rw [index_step_taken known]
          rfl

theorem names_nodup {files : List ScannedFile} {index : SymbolIndex}
    (built : gatherIndex files = (index, [])) : (files.map (·.declaration.name)).Nodup := by
  have none := clashes_gather_index files
  rw [built] at none
  exact (repeats_eq_nil_iff _ _).mp none.symm

/-- Without clashes the index holds exactly the declarations of the files. -/
theorem get?_gather_index_iff {files : List ScannedFile} {index : SymbolIndex}
    (built : gatherIndex files = (index, [])) {name : String} {definition : Definition} :
    index.get? name = some definition ↔
      ∃ file ∈ files, file.declaration.name = name ∧ definitionOf file = definition := by
  have known := get?_gather_index files name
  rw [built] at known
  rw [known, Option.map_eq_some_iff]
  simp only [find?_key_iff _ (names_nodup built), and_assoc]

/-! Objects. -/

namespace ObjectNaming

variable (naming : ObjectNaming)

/-- One step of the assignment. -/
def assignStep (state : List (Path × String) × List Diagnostic) (source : Path) :
    List (Path × String) × List Diagnostic :=
  match state.1.find? (·.2 == naming.object source) with
  | some (first, _) => (state.1, state.2 ++ [.duplicateObject (naming.object source) first source])
  | none => (state.1 ++ [(source, naming.object source)], state.2)

theorem assign_step_taken {state : List (Path × String) × List Diagnostic} {source first : Path}
    {object : String} (taken : state.1.find? (·.2 == naming.object source) = some (first, object)) :
    naming.assignStep state source =
      (state.1, state.2 ++ [.duplicateObject (naming.object source) first source]) := by
  unfold assignStep
  rw [taken]

theorem assign_step_free {state : List (Path × String) × List Diagnostic} {source : Path}
    (free : state.1.find? (·.2 == naming.object source) = none) :
    naming.assignStep state source =
      (state.1 ++ [(source, naming.object source)], state.2) := by
  unfold assignStep
  rw [free]

theorem foldl_assign_step (sources : List Path) (taken : List (Path × String))
    (clashes : List Diagnostic) :
    sources.foldl naming.assignStep (taken, clashes) =
      ((naming.assignFrom taken sources).1, clashes ++ (naming.assignFrom taken sources).2) := by
  induction sources generalizing taken clashes with
  | nil => simp [assignFrom]
  | cons source rest induction =>
      rw [List.foldl_cons, assignFrom]
      cases found : taken.find? (·.2 == naming.object source) with
      | some entry =>
          rw [naming.assign_step_taken found, induction, List.append_assoc]
          rfl
      | none =>
          rw [naming.assign_step_free found]
          exact induction _ _

theorem assign_from_eq_foldl (sources : List Path) :
    naming.assignFrom [] sources = sources.foldl naming.assignStep ([], []) := by
  rw [foldl_assign_step, List.nil_append]

theorem assign_from_append_singleton (sources : List Path) (source : Path) :
    naming.assignFrom [] (sources ++ [source]) =
      naming.assignStep (naming.assignFrom [] sources) source := by
  rw [assign_from_eq_foldl, assign_from_eq_foldl, List.foldl_append]
  rfl

/-- An object is taken by the first source that it is made of. -/
theorem find?_assign_from (sources : List Path) (object : String) :
    (naming.assignFrom [] sources).1.find? (·.2 == object) =
      (sources.find? (naming.object · = object)).map fun source => (source, object) := by
  induction sources using List.reverseRecOn generalizing object with
  | nil => rfl
  | append_singleton sources source induction =>
      rw [assign_from_append_singleton, List.find?_append, Option.map_or, ← induction object]
      cases taken : (naming.assignFrom [] sources).1.find? (·.2 == naming.object source) with
      | some entry =>
          rw [naming.assign_step_taken taken]
          by_cases same : naming.object source = object
          · rw [← same, taken]
            rfl
          · simp [same]
      | none =>
          rw [naming.assign_step_free taken, List.find?_append]
          by_cases same : naming.object source = object
          · simp [same]
          · simp [same]

/-- The clashes are the sources whose objects earlier sources have taken. -/
theorem clashes_assign_from (sources : List Path) :
    (naming.assignFrom [] sources).2 = repeats naming.object (fun first source =>
      .duplicateObject (naming.object source) first source) sources := by
  induction sources using List.reverseRecOn with
  | nil => rfl
  | append_singleton sources source induction =>
      rw [assign_from_append_singleton, repeats_append_singleton, ← induction]
      have known := naming.find?_assign_from sources (naming.object source)
      cases found : sources.find? (naming.object · = naming.object source) with
      | none =>
          rw [found] at known
          rw [naming.assign_step_free known]
          simp
      | some first =>
          rw [found] at known
          rw [naming.assign_step_taken known]
          rfl

/-- An assignment that fails has something to report. -/
theorem assign_ne_nil (sources : List Path) : naming.assign sources ≠ .error [] := by
  unfold assign
  split
  · intro impossible
    cases impossible
  · next clashes some _ =>
      intro none
      exact some (Except.error.inj none)

end ObjectNaming

end FortranDeps.Build

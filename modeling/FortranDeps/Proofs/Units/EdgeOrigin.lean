import FortranDeps.Proofs.Build.UseAccounting
import FortranDeps.Proofs.Preprocess.Provenance
import FortranDeps.Proofs.Units.Rescan

/-!
Where a use edge points. The edge takes its file from the source that is scanned and its line from
the statement. The statement may stand in a file that the source includes, and there the two do not
belong together: the edge then names a line of the source by the number of a line of the header.
-/

namespace FortranDeps.Units

open Preprocess

/-! Lines of files. -/

/-- What a file holds at a line, counted from one. -/
def lineAt? (tree : FileTree) (path : Path) (number : Nat) : Option String :=
  match tree.readText path with
  | .ok text => (Text.lines text.toList)[number - 1]?.map String.ofList
  | .error _ => none

/-- A line is the one at a number of a file. -/
structure StandsAt (tree : FileTree) (path : Path) (number : Nat) (line : Line) : Prop where
  location : line.location = ⟨path.text, number⟩
  counted : 1 ≤ number
  text : lineAt? tree path number = some line.text

theorem stands_at_of_read_lines {tree : FileTree} {path : Path} {lines : List Line}
    (read : tree.readLines path = .ok lines) {line : Line} (member : line ∈ lines) :
    StandsAt tree path line.location.line line := by
  unfold FileTree.readLines at read
  split at read
  · next text found =>
      cases read
      obtain ⟨⟨piece, number⟩, inside, kept⟩ := List.mem_filterMap.mp member
      dsimp only at kept
      split at kept
      · cases kept
      · cases kept
        obtain ⟨counted, here⟩ := List.mk_mem_zipIdx_iff_le_and_getElem?_sub.mp inside
        refine ⟨rfl, counted, ?_⟩
        unfold lineAt?
        rw [found]
        dsimp only
        rw [here, Option.map_some]
  · cases read

/-! The first use of a module. -/

theorem exists_first_use {path : Path} {lines : List Line} {edge : UseEdge}
    (kept : edge ∈ findUses path lines) :
    ∃ before statement after, lines = before ++ statement :: after ∧
      usedModule? path statement = some edge ∧
      ∀ earlier ∈ before, ∀ other, usedModule? path earlier = some other →
        other.name ≠ edge.name := by
  obtain ⟨-, earlier, later, split, fresh⟩ :=
    List.find?_eq_some_iff_append.mp (mem_first_uses.mp kept)
  obtain ⟨front, rest, rfl, inFront, inRest⟩ := List.filterMap_eq_append_iff.mp split
  obtain ⟨silent, statement, after, rfl, none, uses, -⟩ := List.filterMap_eq_cons_iff.mp inRest
  refine ⟨front ++ silent, statement, after, by rw [List.append_assoc], uses, ?_⟩
  intro line member other used
  rcases List.mem_append.mp member with inside | inside
  · have listed : other ∈ earlier := inFront ▸ List.mem_filterMap.mpr ⟨line, inside, used⟩
    simpa using fresh other listed
  · rw [none line inside] at used
    cases used

/-! Where an item stands. -/

/-- An item is one of a header that items include. -/
def FromHeader (tree : FileTree) (paths : List Path) (items : List Item) (header : Path)
    (item : Item) : Prop :=
  ∃ outer ∈ items, ∃ name included, outer.directive = some (.includeFile name) ∧
    resolveInclude tree paths name ⟨outer.line.location.file⟩ = some header ∧
    includedItems tree paths name outer.line.location = .ok included ∧ item ∈ included

section Origins

variable {tree : FileTree} {paths : List Path} {items : List Item}

/-- The lines of a header are read from the file that the include names. -/
theorem read_lines_of_included {name : String} {location : Location} {included : List Item}
    (read : includedItems tree paths name location = .ok included) :
    ∃ header, resolveInclude tree paths name ⟨location.file⟩ = some header ∧
      tree.readLines header = .ok (included.map Item.line) := by
  obtain ⟨loaded, -⟩ := included_items_eq_ok read
  unfold loadInclude at loaded
  split at loaded
  · next header found => exact ⟨header, found, loaded⟩
  · cases loaded

theorem FromHeader.behind {header : Path} {item : Item}
    (origin : FromHeader tree paths items header item) (first : Item) :
    FromHeader tree paths (first :: items) header item := by
  obtain ⟨outer, member, rest⟩ := origin
  exact ⟨outer, List.mem_cons_of_mem first member, rest⟩

theorem origin_of_unfolds {loaded : List Location} {full : List Item}
    (unfolds : Unfolds tree paths items loaded full) {item : Item} (member : item ∈ full) :
    item ∈ items ∨ ∃ header, FromHeader tree paths items header item := by
  induction unfolds with
  | nil => cases member
  | keep first _ induction =>
      rcases List.mem_cons.mp member with rfl | later
      · exact .inl List.mem_cons_self
      · rcases induction later with own | ⟨header, included⟩
        · exact .inl (List.mem_cons_of_mem first own)
        · exact .inr ⟨header, included.behind first⟩
  | @load first name included _ _ _ directive read _ induction =>
      rcases List.mem_append.mp member with inside | later
      · obtain ⟨header, resolved, -⟩ := read_lines_of_included read
        exact .inr ⟨header, first, List.mem_cons_self, name, included, directive, resolved, read,
          inside⟩
      · rcases induction later with own | ⟨header, included⟩
        · exact .inl (List.mem_cons_of_mem first own)
        · exact .inr ⟨header, included.behind first⟩

theorem FromHeader.stands_at {header : Path} {item : Item}
    (origin : FromHeader tree paths items header item) :
    StandsAt tree header item.line.location.line item.line := by
  obtain ⟨outer, -, name, included, -, resolved, read, inside⟩ := origin
  obtain ⟨other, found, lines⟩ := read_lines_of_included read
  obtain rfl := Option.some.inj (resolved.symm.trans found)
  exact stands_at_of_read_lines lines (List.mem_map_of_mem inside)

/-- A file cannot include itself: its lines would hold an include. -/
theorem FromHeader.ne_source {path header : Path} {lines : List Line} {item : Item}
    (source : tree.readLines path = .ok lines) (classified : Item.ofLines lines = .ok items)
    (origin : FromHeader tree paths items header item) : header ≠ path := by
  rintro rfl
  obtain ⟨outer, member, name, included, directive, resolved, read, -⟩ := origin
  obtain ⟨other, found, again⟩ := read_lines_of_included read
  obtain rfl := Option.some.inj (resolved.symm.trans found)
  have same : included.map Item.line = lines := Except.ok.inj (again.symm.trans source)
  have itemLines : items.map Item.line = lines :=
    lines_of_read (fun _ _ => line_of_of_line) classified
  have own : outer.line ∈ included.map Item.line := by
    rw [same, ← itemLines]
    exact List.mem_map_of_mem member
  obtain ⟨inner, inside, sameLine⟩ := List.mem_map.mp own
  have innerRead := (included_items_eq_ok read).2 inner inside
  have outerRead := (@all_stem_of_lines tree paths lines [] items classified outer member).read
  rw [sameLine, outerRead] at innerRead
  obtain rfl := Except.ok.inj innerRead
  have plain := included_items_plain read outer inside
  rw [Item.is_include_of_directive directive] at plain
  cases plain

end Origins

/-- What a scan with the preprocessor reads. -/
theorem output_of_scan_file {tree : FileTree} {paths : List Path} {seeds : MacroTable}
    {source : SourceFile} {file : ScannedFile}
    (scanned : scanFile tree (.preprocessed paths seeds) source = .ok file) :
    ∃ lines output, tree.readLines source.path = .ok lines ∧
      (preprocess tree paths lines seeds).1 = .ok output ∧
      file.uses = if source.excluded then [] else findUses source.path output := by
  unfold scanFile Reading.lines preprocessFile at scanned
  cases read : tree.readLines source.path with
  | error diagnostic =>
      rw [read] at scanned
      cases scanned
  | ok lines =>
      rw [read] at scanned
      cases done : (preprocess tree paths lines seeds).1 with
      | error diagnostic =>
          simp only [done] at scanned
          cases scanned
      | ok output =>
          simp only [done, bind, Except.bind] at scanned
          split at scanned
          · cases scanned
          · cases scanned
            exact ⟨lines, output, rfl, done, rfl⟩

/-- The item behind a line of the output. -/
theorem exists_source {sources : List Item} {before after : List Line} {statement : Line}
    (gives : List.Forall₂ Gives sources (before ++ statement :: after)) :
    ∃ front origin back, sources = front ++ origin :: back ∧
      List.Forall₂ Gives front before ∧ Gives origin statement := by
  induction before generalizing sources with
  | nil =>
      cases gives with
      | @cons origin _ back _ own _ => exact ⟨[], origin, back, rfl, .nil, own⟩
  | cons line before induction =>
      cases gives with
      | @cons item _ rest _ own later =>
          obtain ⟨front, origin, back, rfl, inFront, given⟩ := induction later
          exact ⟨item :: front, origin, back, rfl, .cons own inFront, given⟩

/-- Every edge of a preprocessed file comes from the first line of the output that uses the module,
and that line from an item of the source or of a header. The edge names the source, together with
the number under which the item stands in its own file. So it points at the item exactly if the item
is one of the source itself. -/
theorem edge_points_at_statement_iff (tree : FileTree) (paths : List Path) (seeds : MacroTable)
    (source : SourceFile) (file : ScannedFile)
    (scanned : scanFile tree (.preprocessed paths seeds) source = .ok file)
    (edge : UseEdge) (kept : edge ∈ file.uses) :
    ∃ lines items loaded full, tree.readLines source.path = .ok lines ∧
      Item.ofLines lines = .ok items ∧ Unfolds tree paths items loaded full ∧
      ∃ front origin back before statement after,
        (preprocess tree paths lines seeds).1 = .ok (before ++ statement :: after) ∧
        (front ++ origin :: back).Sublist full ∧
        List.Forall₂ Gives front before ∧ Gives origin statement ∧
        usedModule? source.path statement = some edge ∧
        (∀ earlier ∈ before, ∀ other, usedModule? source.path earlier = some other →
          other.name ≠ edge.name) ∧
        edge.file = source.path ∧
        (StandsAt tree edge.file edge.line origin.line ↔ origin ∈ items) ∧
        (origin ∈ items ∨ ∃ header, header ≠ source.path ∧
          FromHeader tree paths items header origin ∧
          StandsAt tree header edge.line origin.line) := by
  obtain ⟨lines, output, read, done, uses⟩ := output_of_scan_file scanned
  have found : edge ∈ findUses source.path output := by
    rw [uses] at kept
    split at kept
    · cases kept
    · exact kept
  obtain ⟨before, statement, after, rfl, used, fresh⟩ := exists_first_use found
  obtain ⟨items, level, progress, classified, prepared, run⟩ := preprocess_eq_ok done
  obtain ⟨within, inner, sources, unfolds, -, selects, gives⟩ := accounted_of_run run done
  obtain ⟨loaded, full, whole, richer, -⟩ := unfolds_prepare_level prepared unfolds
  have inFull := (richer 0 sources selects).sublist
  obtain ⟨front, origin, back, rfl, givesFront, own⟩ := exists_source gives
  have member : origin ∈ full := inFull.subset (List.mem_append_right front List.mem_cons_self)
  obtain ⟨edgeFile, edgeLine⟩ : edge.file = source.path ∧
      edge.line = origin.line.location.line := by
    obtain ⟨use, -, rfl⟩ := Option.map_eq_some_iff.mp (used_module_eq _ _ ▸ used)
    exact ⟨rfl, congrArg Location.line own.1⟩
  have itemLines : items.map Item.line = lines :=
    lines_of_read (fun _ _ => line_of_of_line) classified
  have pointed (inside : origin ∈ items) : StandsAt tree edge.file edge.line origin.line := by
    rw [edgeFile, edgeLine]
    apply stands_at_of_read_lines read
    rw [← itemLines]
    exact List.mem_map_of_mem inside
  refine ⟨lines, items, loaded, full, read, classified, whole, front, origin, back, before,
    statement, after, done, inFull, givesFront, own, used, fresh, edgeFile, ?_, ?_⟩
  · refine ⟨?_, pointed⟩
    intro stands
    rcases origin_of_unfolds whole member with inside | ⟨header, included⟩
    · exact inside
    -- The header would have the path of the source.
    · have headerText := included.stands_at.location
      rw [stands.location, edgeFile] at headerText
      have same : source.path.text = header.text := congrArg Location.file headerText
      apply absurd _ (included.ne_source read classified)
      cases header
      exact congrArg Path.mk same.symm
  · rcases origin_of_unfolds whole member with inside | ⟨header, included⟩
    · exact .inl inside
    · have stands := included.stands_at
      rw [← edgeLine] at stands
      exact .inr ⟨header, included.ne_source read classified, included, stands⟩

/-- The header holds one use, at a line that the source does not have. -/
def usingTree : FileTree :=
  { FileTree.empty [] with nodes :=
    [(["a.F90"], .file "#include 'u.h'\nmodule a\n".toUTF8),
      (["u.h"], .file "\n\n use m\n".toUTF8)] }

def usingUnit : Item := ⟨⟨"module a", ⟨"a.F90", 2⟩⟩, none⟩

def usingItems : List Item :=
  [⟨⟨"#include 'u.h'", ⟨"a.F90", 1⟩⟩, some (.includeFile "u.h")⟩, usingUnit]

def includedUse : Item := ⟨⟨" use m", ⟨"u.h", 3⟩⟩, none⟩

theorem use_included : includedItems usingTree [] "u.h" ⟨"a.F90", 1⟩ = .ok [includedUse] := by
  have resolved : resolveInclude usingTree [] "u.h" ⟨"a.F90"⟩ = some ⟨"u.h"⟩ := by cbv
  have read : usingTree.readLines ⟨"u.h"⟩ = .ok [includedUse.line] := by cbv
  have classified : Item.ofLines [includedUse.line] = .ok [includedUse] := by cbv
  exact included_of_resolved resolved read classified (by decide)

/-- What the scan of the source finds. -/
def usingFile : ScannedFile :=
  ⟨⟨⟨"a.F90"⟩, false, false⟩, ⟨⟨"a.F90"⟩, .moduleUnit, "a"⟩, [⟨⟨"a.F90"⟩, "m", false, 3⟩]⟩

theorem scan_of_using :
    scanFile usingTree (.preprocessed [] .empty) ⟨⟨"a.F90"⟩, false, false⟩ = .ok usingFile := by
  have read : usingTree.readLines ⟨"a.F90"⟩ = .ok (usingItems.map Item.line) := by cbv
  have classified : Item.ofLines (usingItems.map Item.line) = .ok usingItems := by cbv
  have spliced : splice usingTree [] usingItems 0 =
      (.ok [includedUse, usingUnit], [⟨"a.F90", 1⟩]) := by
    unfold usingItems
    rw [splice_include _ _ rfl, use_included]
    rfl
  have prepared : prepareLevel usingTree [] usingItems ⟨.empty, []⟩ =
      (.ok [includedUse, usingUnit], ⟨.empty, [⟨"a.F90", 1⟩]⟩) := by
    unfold prepareLevel
    rw [spliced]
    rfl
  have done : (preprocess usingTree [] (usingItems.map Item.line) .empty).1 =
      .ok [includedUse.line, usingUnit.line] := by
    unfold preprocess
    rw [classified]
    simp only [prepared]
    cbv
  unfold scanFile Reading.lines preprocessFile
  simp only [read, done]
  cbv

/-- The edge names the third line of a source of two lines. -/
theorem edge_of_header_points_past_source :
    lineAt? usingTree ⟨"a.F90"⟩ 3 = none ∧ lineAt? usingTree ⟨"u.h"⟩ 3 = some " use m" ∧
      ∃ edge ∈ usingFile.uses, edge.file = ⟨"a.F90"⟩ ∧ edge.line = 3 ∧
        ∃ origin : Item, ¬StandsAt usingTree edge.file edge.line origin.line ∧
          ∃ header, header ≠ edge.file ∧ StandsAt usingTree header edge.line origin.line := by
  have past : lineAt? usingTree ⟨"a.F90"⟩ 3 = none := by cbv
  have there : lineAt? usingTree ⟨"u.h"⟩ 3 = some " use m" := by cbv
  refine ⟨past, there, ⟨⟨"a.F90"⟩, "m", false, 3⟩, List.mem_singleton_self _, rfl, rfl, ?_⟩
  obtain ⟨lines, items, loaded, full, -, -, -, front, origin, back, before, statement, after, -, -,
    -, -, -, -, -, points, stems⟩ := edge_points_at_statement_iff usingTree [] .empty _ usingFile
      scan_of_using ⟨⟨"a.F90"⟩, "m", false, 3⟩ (List.mem_singleton_self _)
  have astray : ¬StandsAt usingTree ⟨"a.F90"⟩ 3 origin.line := by
    intro stands
    have here := stands.text
    rw [past] at here
    cases here
  rcases stems with inside | ⟨header, other, -, stands⟩
  · exact absurd (points.mpr inside) astray
  · exact ⟨origin, astray, header, other, stands⟩

end FortranDeps.Units

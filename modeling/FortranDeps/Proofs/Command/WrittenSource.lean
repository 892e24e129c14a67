import FortranDeps.Command.Run
import FortranDeps.Proofs.Files.Rereading
import FortranDeps.Proofs.Preprocess.BlockTree
import FortranDeps.Proofs.Preprocess.SingleLines
import FortranDeps.Proofs.Units.Rescan

/-!
Sources that are preprocessed to a file. The file is scanned as it stands and gives what a scan of
the source gives that preprocesses it in memory. The one exception is a path that leads through the
link which the new file replaces: nothing can be read under it afterwards.
-/

namespace FortranDeps.Command

open FortranDeps.Preprocess FortranDeps.Units

/-- The lines behind a text that has been written, and what the lines of the file are then. -/
theorem preprocessed_text_eq_ok {tree : FileTree} {settings : PreprocessSettings} {input : Path}
    {text : String} (done : preprocessedText tree settings input = .ok text) :
    ∃ seeds output, MacroTable.ofSeeds settings.seeds = .ok seeds ∧
      (preprocessFile tree (searchPaths settings.searchPaths) input seeds).1 = .ok output ∧
      text = lines (output.map (·.text)) := by
  unfold preprocessedText at done
  cases read : MacroTable.ofSeeds settings.seeds with
  | error diagnostic =>
      rw [read] at done
      cases done
  | ok seeds =>
      rw [read] at done
      cases run : (preprocessFile tree (searchPaths settings.searchPaths) input seeds).1 with
      | error diagnostic =>
          simp only [bind, Except.bind, run] at done
          cases done
      | ok output =>
          simp only [bind, Except.bind, run] at done
          cases done
          exact ⟨seeds, output, rfl, run, rfl⟩

theorem run_preprocess_eq_ok {tree after : FileTree} {settings : PreprocessSettings}
    {input path : Path} {overwrite : Bool} {printed : String}
    (done : runPreprocess tree settings input (some path) overwrite = (.ok printed, after)) :
    ∃ text place, preprocessedText tree settings input = .ok text ∧
      tree.landing path = .ok place ∧ after = tree.put place (.file text.toUTF8) := by
  unfold runPreprocess at done
  cases preprocessed : preprocessedText tree settings input with
  | error diagnostic =>
      rw [preprocessed] at done
      cases done
  | ok text =>
      rw [preprocessed] at done
      cases written : tree.writeFile path text.toUTF8 overwrite with
      | mk result final =>
          cases result with
          | error diagnostic =>
              simp only [written] at done
              cases done
          | ok _ =>
              simp only [written] at done
              cases done
              obtain ⟨place, lands, same⟩ := FileTree.write_file_eq_ok written
              exact ⟨text, place, rfl, lands, same⟩

/-- A preprocessed file is scanned like its source. If the values of the seeds have no line feed
and the file has been written, a scan of the file as it stands finds the same unit with the same
uses as a scan of the source that preprocesses it in the tree as it was before, or fails in the same
way. If the path leads through the link that the file has replaced, the file cannot be read. -/
theorem written_file_scans_like_its_source {tree after : FileTree} {settings : PreprocessSettings}
    {input path : Path} {overwrite : Bool} {printed : String}
    (done : runPreprocess tree settings input (some path) overwrite = (.ok printed, after))
    (values : ∀ text ∈ settings.seeds, ∀ seed, Seed.parse text = .ok seed →
      ∀ value ∈ seed.value, '\n' ∉ value.toList) (always otherAlways : Bool) :
    ∃ seeds place, MacroTable.ofSeeds settings.seeds = .ok seeds ∧
      tree.landing path = .ok place ∧
      (place ∉ tree.linksOnWay path →
        SameScan (scanFile after .verbatim ⟨path, false, always⟩)
          (scanFile tree (.preprocessed (searchPaths settings.searchPaths) seeds)
            ⟨input, false, otherAlways⟩)) ∧
      (place ∈ tree.linksOnWay path →
        scanFile after .verbatim ⟨path, false, always⟩ =
          .error (.io path AccessFault.notDirectory.message)) := by
  obtain ⟨text, place, preprocessed, lands, rfl⟩ := run_preprocess_eq_ok done
  obtain ⟨seeds, output, read, run, rfl⟩ := preprocessed_text_eq_ok preprocessed
  have reread := FileTree.read_text_put lands (lines (output.map (·.text)))
  refine ⟨seeds, place, read, lands, ?_, ?_⟩
  · intro kept
    rw [if_neg kept] at reread
    have single := single_of_preprocess_file (MacroTable.single_lines_of_seeds values read) run
    have verbatim : Reading.verbatim.lines (tree.put place (.file (lines
        (output.map (·.text))).toUTF8)) path = .ok (Line.ofText path.text
          (lines (output.map (·.text)))) := by
      simp only [Reading.lines, FileTree.readLines, reread]
    have inMemory : (Reading.preprocessed (searchPaths settings.searchPaths) seeds).lines tree
        input = .ok output := run
    exact same_scan_of_content verbatim inMemory (lasting_unit.filter_map_written single path.text)
      (lasting_use.filter_map_written single path.text) always otherAlways
  · intro replaced
    rw [if_pos replaced] at reread
    simp only [scanFile, Reading.lines, FileTree.readLines, reread, bind, Except.bind]

/-- A source that is named by a seed, with a use in a branch and a note that a seed comments
out. -/
def gridSource : BlockTree :=
  .content ⟨⟨"module NAME", ⟨"a.F90", 1⟩⟩, by cbv⟩ <|
  .alternatives "MPI" true ⟨⟨"#ifdef MPI", ⟨"a.F90", 2⟩⟩, by cbv⟩
    (.content ⟨⟨"use mpi", ⟨"a.F90", 3⟩⟩, by cbv⟩ .nil)
    ⟨⟨"#else", ⟨"a.F90", 4⟩⟩, by cbv⟩
    (.content ⟨⟨"use LAYER", ⟨"a.F90", 5⟩⟩, by cbv⟩ .nil)
    ⟨⟨"#endif", ⟨"a.F90", 6⟩⟩, by cbv⟩ <|
  .content ⟨⟨"NOTE", ⟨"a.F90", 7⟩⟩, by cbv⟩ .nil

def gridText : String := "module NAME\n#ifdef MPI\nuse mpi\n#else\nuse LAYER\n#endif\nNOTE\n"

def gridSettings : PreprocessSettings where
  seeds := ["NAME=grid", "LAYER=serial", "NOTE=! alone"]

def gridTable : MacroTable :=
  ((MacroTable.empty.define "NAME" (some "grid")).define "LAYER" (some "serial")).define
    "NOTE" (some "! alone")

/-- What is left of the source, the note included. -/
def gridLines : List Line :=
  [⟨"module grid", ⟨"a.F90", 1⟩⟩, ⟨"use serial", ⟨"a.F90", 5⟩⟩, ⟨"! alone", ⟨"a.F90", 7⟩⟩]

def gridOutput : String := "module grid\nuse serial\n! alone\n"

/-- A tree with the source and a link to a directory. -/
def linkedTree : FileTree where
  workingDirectory := []
  nodes := [(["a.F90"], .file gridText.toUTF8), (["d"], .directory), (["l"], .link "d")]
  temporaries := []

theorem grid_seeds : MacroTable.ofSeeds gridSettings.seeds = .ok gridTable := by
  decide +kernel

theorem grid_lines : linkedTree.readLines ⟨"a.F90"⟩ = .ok gridSource.lines := by
  have found : linkedTree.find ⟨"a.F90"⟩ = .ok (.file gridText.toUTF8) := by cbv
  exact FileTree.read_lines_of_find found (by cbv)

theorem grid_run : (preprocessFile linkedTree (searchPaths []) ⟨"a.F90"⟩ gridTable).1 =
    .ok gridLines := by
  unfold preprocessFile preprocess
  rw [grid_lines]
  simp only [BlockTree.of_lines, BlockTree.prepare_items, BlockTree.walk_residue]
  decide +kernel

theorem grid_preprocessed :
    preprocessedText linkedTree gridSettings ⟨"a.F90"⟩ = .ok gridOutput := by
  unfold preprocessedText
  rw [grid_seeds]
  change ((preprocessFile linkedTree (searchPaths []) ⟨"a.F90"⟩ gridTable).1 >>= _) = _
  rw [grid_run]
  rfl

/-- The source is written to a path, whatever stands there. -/
theorem grid_written {path : Path} {place : Place}
    (stageable : StagedWrite.Stageable linkedTree true path)
    (lands : linkedTree.landing path = .ok place) :
    runPreprocess linkedTree gridSettings ⟨"a.F90"⟩ (some path) true =
      (.ok "", linkedTree.put place (.file gridOutput.toUTF8)) := by
  have written := FileTree.write_file_of_stageable stageable gridOutput.toUTF8
  rw [lands] at written
  unfold runPreprocess
  rw [grid_preprocessed]
  simp only [written]

/-- The scan that preprocesses the source finds the module under its real name, and the use. -/
theorem grid_scanned :
    scanFile linkedTree (.preprocessed (searchPaths []) gridTable) ⟨⟨"a.F90"⟩, false, false⟩ =
      .ok ⟨⟨⟨"a.F90"⟩, false, false⟩, ⟨⟨"a.F90"⟩, .moduleUnit, "grid"⟩,
        [⟨⟨"a.F90"⟩, "serial", false, 5⟩]⟩ := by
  have declared : findDeclaration gridLines = .one .moduleUnit "grid" := by cbv
  have used : findUses ⟨"a.F90"⟩ gridLines = [⟨⟨"a.F90"⟩, "serial", false, 5⟩] := by cbv
  simp only [scanFile, Reading.lines, grid_run, bind, Except.bind, declared, used,
    DeclarationSearch.toDeclaration]
  rfl

/-- Neither the seed in the name nor the one that comments out a line changes what is found. -/
theorem plain_path_scans_like_source :
    runPreprocess linkedTree gridSettings ⟨"a.F90"⟩ (some ⟨"b.f90"⟩) true =
        (.ok "", linkedTree.put ["b.f90"] (.file gridOutput.toUTF8)) ∧
      SameScan (scanFile (linkedTree.put ["b.f90"] (.file gridOutput.toUTF8)) .verbatim
          ⟨⟨"b.f90"⟩, false, false⟩)
        (.ok ⟨⟨⟨"a.F90"⟩, false, false⟩, ⟨⟨"a.F90"⟩, .moduleUnit, "grid"⟩,
          [⟨⟨"a.F90"⟩, "serial", false, 5⟩]⟩) := by
  have lands : linkedTree.landing ⟨"b.f90"⟩ = .ok ["b.f90"] := by cbv
  have stageable : StagedWrite.Stageable linkedTree true ⟨"b.f90"⟩ := ⟨.inl rfl, [], by cbv, by cbv⟩
  have way : linkedTree.linksOnWay ⟨"b.f90"⟩ = [] := by cbv
  have written := grid_written stageable lands
  have values : ∀ text ∈ gridSettings.seeds, ∀ seed, Seed.parse text = .ok seed →
      ∀ value ∈ seed.value, '\n' ∉ value.toList := by
    have parsed : gridSettings.seeds.map Seed.parse = [.ok ⟨"NAME", some "grid"⟩,
        .ok ⟨"LAYER", some "serial"⟩, .ok ⟨"NOTE", some "! alone"⟩] := by decide +kernel
    intro text member seed read value inValue
    have known := List.mem_map_of_mem (f := Seed.parse) member
    rw [parsed, read] at known
    simp only [List.mem_cons, Except.ok.injEq, List.not_mem_nil, or_false] at known
    rcases known with rfl | rfl | rfl <;> cases inValue <;> decide
  obtain ⟨seeds, place, read, landed, same, -⟩ :=
    written_file_scans_like_its_source written values false false
  rw [lands] at landed
  cases landed
  rw [grid_seeds] at read
  cases read
  refine ⟨written, ?_⟩
  rw [← grid_scanned]
  apply same
  rw [way]
  exact List.not_mem_nil

/-- The path of the output leads through a link, which the output replaces. -/
theorem replaced_link_hides_written_file :
    ∃ after,
      runPreprocess linkedTree gridSettings ⟨"a.F90"⟩ (some ⟨"l/../l"⟩) true = (.ok "", after) ∧
      scanFile after .verbatim ⟨⟨"l/../l"⟩, false, false⟩ =
        .error (.io ⟨"l/../l"⟩ AccessFault.notDirectory.message) ∧
      scanFile linkedTree (.preprocessed (searchPaths []) gridTable) ⟨⟨"a.F90"⟩, false, false⟩ =
        .ok ⟨⟨⟨"a.F90"⟩, false, false⟩, ⟨⟨"a.F90"⟩, .moduleUnit, "grid"⟩,
          [⟨⟨"a.F90"⟩, "serial", false, 5⟩]⟩ := by
  have lands : linkedTree.landing ⟨"l/../l"⟩ = .ok ["l"] := by cbv
  have stageable : StagedWrite.Stageable linkedTree true ⟨"l/../l"⟩ :=
    ⟨.inl rfl, [], by cbv, by cbv⟩
  have way : linkedTree.linksOnWay ⟨"l/../l"⟩ = [["l"]] := by cbv
  refine ⟨_, grid_written stageable lands, ?_, grid_scanned⟩
  have reread := FileTree.read_text_put lands gridOutput
  rw [way, if_pos (by decide)] at reread
  simp only [scanFile, Reading.lines, FileTree.readLines, reread, bind, Except.bind]

end FortranDeps.Command

import FortranDeps.Proofs.Project.Outputs

/-!
Cycles among the rules of a listing. The edges alone have none, because the files have none and
no two files share an object. Link rules are not checked: the name of a program can be the name
of an object, and then the rules are circular exactly if programs are linked into each other in
a circle. Without an extension for objects every program is linked into itself.
-/

namespace FortranDeps.Project

open Build FortranDeps.Units Relation

/-- One of the rules has this target and this prerequisite. -/
def HasRule (rules : List Rule) (target prerequisite : String) : Prop :=
  Rule.mk target prerequisite ∈ rules

/-- Some name is reached from itself along the rules. -/
def Circular (rules : List Rule) : Prop := ∃ name, TransGen (HasRule rules) name name

/-- A program is linked from an object that has the name of another program. -/
structure LinksInto (settings : Settings) (files : List ScannedFile)
    (program other : ScannedFile) : Prop where
  linked : program ∈ checkedPrograms files
  named : other ∈ checkedPrograms files
  shared : ∃ used, ReflTransGen (Prerequisite settings files) program used ∧
    objectOfFile settings used = programOfFile settings other

/-- Where the rules lead from the object of a file: along prerequisites only, or on to an object
that has the name of a program and through programs that are linked into each other. -/
inductive Leads (settings : Settings) (files : List ScannedFile) (file used : ScannedFile) : Prop
  | directly (way : TransGen (Prerequisite settings files) file used)
  | through (middle first last : ScannedFile)
      (before : ReflTransGen (Prerequisite settings files) file middle)
      (met : objectOfFile settings middle = programOfFile settings first)
      (inFirst : first ∈ checkedPrograms files)
      (programs : ReflTransGen (LinksInto settings files) first last)
      (inLast : last ∈ checkedPrograms files)
      (after : ReflTransGen (Prerequisite settings files) last used)

namespace Leads

variable {settings : Settings} {files : List ScannedFile} {file used next program : ScannedFile}

theorem edge (leads : Leads settings files file used)
    (direct : Prerequisite settings files used next) : Leads settings files file next := by
  cases leads with
  | directly way => exact .directly (way.tail direct)
  | through middle first last before met inFirst programs inLast after =>
      exact .through middle first last before met inFirst programs inLast (after.tail direct)

theorem link (leads : Leads settings files file used) (inPrograms : program ∈ checkedPrograms files)
    (met : objectOfFile settings used = programOfFile settings program)
    (way : ReflTransGen (Prerequisite settings files) program next) :
    Leads settings files file next := by
  cases leads with
  | directly before =>
      exact .through used program program before.to_reflTransGen met inPrograms .refl inPrograms way
  | through middle first last before first_met inFirst programs inLast after =>
      have linked : LinksInto settings files last program := ⟨inLast, inPrograms, used, after, met⟩
      exact .through middle first program before first_met inFirst (programs.tail linked)
        inPrograms way

/-- Rules that lead back to the same object close a circle of prerequisites or of programs. -/
theorem closed (leads : Leads settings files file file) :
    TransGen (Prerequisite settings files) file file ∨
      ∃ program, TransGen (LinksInto settings files) program program := by
  cases leads with
  | directly way => exact .inl way
  | through middle first last before met inFirst programs inLast after =>
      have linked : LinksInto settings files last first :=
        ⟨inLast, inFirst, middle, after.trans before, met⟩
      exact .inr ⟨first, .tail' programs linked⟩

end Leads

namespace Stages

variable {tree : FileTree} {settings : Settings} {lines : Reading} {analysis : Analysis}
  {file : ScannedFile} {name : String}

/-- The edges lead from the object of a file along prerequisites only. -/
theorem edges_lead (stages : Stages tree settings lines analysis) (member : file ∈ analysis.files)
    (way : TransGen (HasRule analysis.listing.edges) (objectOfFile settings file) name) :
    ∃ used, name = objectOfFile settings used ∧
      TransGen (Prerequisite settings analysis.files) file used := by
  induction way with
  | single rule =>
      obtain ⟨user, used, direct, same, rfl⟩ := stages.mem_edges_iff.mp rule
      obtain rfl := stages.eq_of_object member direct.user same
      exact ⟨used, rfl, .single direct⟩
  | tail _ rule earlier =>
      obtain ⟨middle, rfl, way⟩ := earlier
      obtain ⟨user, used, direct, same, rfl⟩ := stages.mem_edges_iff.mp rule
      obtain rfl := stages.eq_of_object (Prerequisite.mem_of_path way).2 direct.user same
      exact ⟨used, rfl, way.tail direct⟩

/-- A rule for the object of a file is about one of its prerequisites, or the object has the
name of a program. -/
theorem rule_cases (stages : Stages tree settings lines analysis) (member : file ∈ analysis.files)
    (rule : HasRule (analysis.listing.edges ++ analysis.listing.linkRules)
      (objectOfFile settings file) name) :
    ∃ used ∈ analysis.files, name = objectOfFile settings used ∧
      (Prerequisite settings analysis.files file used ∨
        ∃ program ∈ checkedPrograms analysis.files,
          objectOfFile settings file = programOfFile settings program ∧
            ReflTransGen (Prerequisite settings analysis.files) program used) := by
  rcases List.mem_append.mp rule with edge | link
  · obtain ⟨user, used, direct, same, rfl⟩ := stages.mem_edges_iff.mp edge
    obtain rfl := stages.eq_of_object member direct.user same
    exact ⟨used, direct.declaring, rfl, .inl direct⟩
  · obtain ⟨-, program, inPrograms, used, inUsed, met, rfl, way⟩ :=
      stages.mem_link_rules_iff.mp link
    exact ⟨used, inUsed, rfl, .inr ⟨program, inPrograms, met, way⟩⟩

theorem rules_lead (stages : Stages tree settings lines analysis) (member : file ∈ analysis.files)
    (way : TransGen (HasRule (analysis.listing.edges ++ analysis.listing.linkRules))
      (objectOfFile settings file) name) :
    ∃ used ∈ analysis.files, name = objectOfFile settings used ∧
      Leads settings analysis.files file used := by
  induction way with
  | single rule =>
      obtain ⟨used, inUsed, rfl, direct | ⟨program, inPrograms, met, way⟩⟩ :=
        stages.rule_cases member rule
      · exact ⟨used, inUsed, rfl, .directly (.single direct)⟩
      · exact ⟨used, inUsed, rfl,
          .through file program program .refl met inPrograms .refl inPrograms way⟩
  | tail _ rule earlier =>
      obtain ⟨middle, inMiddle, rfl, leads⟩ := earlier
      obtain ⟨used, inUsed, rfl, direct | ⟨program, inPrograms, met, way⟩⟩ :=
        stages.rule_cases inMiddle rule
      · exact ⟨used, inUsed, rfl, leads.edge direct⟩
      · exact ⟨used, inUsed, rfl, leads.link inPrograms met way⟩

theorem edges_not_circular (stages : Stages tree settings lines analysis) :
    ¬Circular analysis.listing.edges := by
  rintro ⟨name, cycle⟩
  obtain ⟨target, -, rule⟩ := TransGen.tail'_iff.mp cycle
  obtain ⟨user, file, direct, -, rfl⟩ := stages.mem_edges_iff.mp rule
  obtain ⟨used, same, way⟩ := stages.edges_lead direct.declaring cycle
  obtain rfl := stages.eq_of_object direct.declaring (Prerequisite.mem_of_path way).2 same
  exact stages.acyclic_iff.mp stages.graph_acyclic file way

/-- Link rules close a circle exactly if programs are linked into each other in a circle. -/
theorem circular_iff (stages : Stages tree settings lines analysis)
    (set : settings.output.linkRules = true) :
    Circular (analysis.listing.edges ++ analysis.listing.linkRules) ↔
      ∃ program, TransGen (LinksInto settings analysis.files) program program := by
  constructor
  · rintro ⟨name, cycle⟩
    -- Every prerequisite is an object, so the last rule of the cycle gives a file to start from.
    obtain ⟨target, -, rule⟩ := TransGen.tail'_iff.mp cycle
    have object : ∃ file ∈ analysis.files, name = objectOfFile settings file := by
      rcases List.mem_append.mp rule with edge | link
      · obtain ⟨user, file, direct, -, same⟩ := stages.mem_edges_iff.mp edge
        exact ⟨file, direct.declaring, same⟩
      · obtain ⟨-, program, -, file, member, -, same, -⟩ := stages.mem_link_rules_iff.mp link
        exact ⟨file, member, same⟩
    obtain ⟨file, member, rfl⟩ := object
    obtain ⟨used, inUsed, same, leads⟩ := stages.rules_lead member cycle
    obtain rfl := stages.eq_of_object member inUsed same
    rcases leads.closed with way | programs
    · exact absurd way (stages.acyclic_iff.mp stages.graph_acyclic file)
    · exact programs
  · rintro ⟨program, cycle⟩
    refine ⟨programOfFile settings program, cycle.lift (programOfFile settings) ?_⟩
    intro first second links
    obtain ⟨used, way, met⟩ := links.shared
    have inFirst := (mem_checked_programs.mp links.linked).1
    have inUsed : used ∈ analysis.files := by
      rcases reflTransGen_iff_eq_or_transGen.mp way with rfl | path
      · exact inFirst
      · exact (Prerequisite.mem_of_path path).2
    apply List.mem_append_right
    exact stages.mem_link_rules_iff.mpr ⟨set, first, links.linked, used, inUsed, rfl, met.symm, way⟩

end Stages

/-- The rules of a successful analysis are circular exactly if link rules are asked for and
programs are linked into each other in a circle. A program is linked into another one by an
object whose stem and extension make up the stem of that program's file; without an extension
one program is enough. The edges alone are never circular. -/
theorem rules_circular_iff {tree : FileTree} {settings : Settings} {analysis : Analysis}
    (success : analyze tree settings = .ok analysis) :
    ¬Circular analysis.listing.edges ∧
    (Circular (analysis.listing.edges ++ analysis.listing.linkRules) ↔
      settings.output.linkRules = true ∧
        ∃ program, TransGen (LinksInto settings analysis.files) program program) ∧
    (∀ file program, objectOfFile settings file = programOfFile settings program ↔
      stemOf program = stemOf file ++ objectSuffix settings) ∧
    ((naming settings).extension = "" →
      (Circular (analysis.listing.edges ++ analysis.listing.linkRules) ↔
        settings.output.linkRules = true ∧
          ∃ program, program ∈ checkedPrograms analysis.files)) := by
  obtain ⟨lines, stages⟩ := analyze_eq_ok.mp success
  have condition : Circular (analysis.listing.edges ++ analysis.listing.linkRules) ↔
      settings.output.linkRules = true ∧
        ∃ program, TransGen (LinksInto settings analysis.files) program program := by
    cases set : settings.output.linkRules with
    | true => simpa using stages.circular_iff set
    | false =>
        have none : analysis.listing.linkRules = [] := by rw [stages.link_rules_eq, set]; rfl
        rw [none, List.append_nil]
        simpa using stages.edges_not_circular
  refine ⟨stages.edges_not_circular, condition, fun file program => object_eq_program_iff, ?_⟩
  intro bare
  rw [condition]
  refine and_congr_right fun set => ⟨?_, ?_⟩
  · rintro ⟨program, cycle⟩
    obtain ⟨next, links, -⟩ := TransGen.head'_iff.mp cycle
    exact ⟨program, links.linked⟩
  · rintro ⟨program, inPrograms⟩
    have own : objectOfFile settings program = programOfFile settings program := by
      rw [object_eq_program_iff, objectSuffix, if_pos bare, String.append_empty]
    exact ⟨program, .single ⟨inPrograms, inPrograms, program, .refl, own⟩⟩

/-- A program whose object has no extension. -/
def bareTree : FileTree :=
  { FileTree.empty [] with nodes := [(["p.f90"], .file "program p\n".toUTF8)] }

def bareSettings : Settings where
  discovery := { files := [⟨"p.f90"⟩] }
  preprocess := { enabled := false }
  output := { objectExtension := "", linkRules := true }

def bareFiles : List ScannedFile :=
  [⟨⟨⟨"p.f90"⟩, false, false⟩, ⟨⟨"p.f90"⟩, .mainProgram, "p"⟩, []⟩]

def bareAnalysis : Analysis where
  sources := bareFiles.map (·.source)
  files := bareFiles
  index := (gatherIndex bareFiles).1
  objects := ⟨[(⟨"p.f90"⟩, "p")]⟩
  graph := .ofCalls [(⟨"p.f90"⟩, [])]
  listing := buildListing bareSettings.output ⟨[(⟨"p.f90"⟩, "p")]⟩ (.ofCalls [(⟨"p.f90"⟩, [])])
    bareFiles

theorem bare_stages : Stages bareTree bareSettings .verbatim bareAnalysis where
  discovered := rfl
  read := rfl
  scanned := by cbv
  indexed := by decide +kernel
  assigned := rfl
  resolved := rfl
  acyclic := by
    have name : Path.components ⟨"p.f90"⟩ = [.normal "p.f90"] := by decide +kernel
    have shape : ∃ positions, bareAnalysis.graph = ⟨#[⟨"p.f90"⟩], positions, #[[]]⟩ := by
      simp [bareAnalysis, DependencyGraph.ofCalls, DependencyGraph.addFiles,
        DependencyGraph.addFile, DependencyGraph.mention, DependencyGraph.contains,
        DependencyGraph.position?, DependencyGraph.empty, name]
    obtain ⟨positions, same⟩ := shape
    rw [same]
    cbv
  listed := rfl

/-- The program has the name of its own object, and its link rule is circular. -/
theorem program_linked_from_itself :
    analyze bareTree bareSettings = .ok bareAnalysis ∧
      Circular (bareAnalysis.listing.edges ++ bareAnalysis.listing.linkRules) := by
  have success : analyze bareTree bareSettings = .ok bareAnalysis :=
    analyze_eq_ok.mpr ⟨.verbatim, bare_stages⟩
  refine ⟨success, ((rules_circular_iff success).2.2.2 (by decide +kernel)).mpr ⟨rfl, ?_⟩⟩
  exact ⟨bareFiles[0], mem_checked_programs.mpr ⟨by simp [bareAnalysis], rfl, rfl⟩⟩

end FortranDeps.Project

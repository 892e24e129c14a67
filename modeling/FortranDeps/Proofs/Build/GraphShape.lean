import FortranDeps.Build.DependencyGraph
import Mathlib

/-!
The shape of a dependency graph that is built file by file. Positions and files are
inverse to each other, and every position among the needs of a file is the position of
a file. Adding a file sets what this file needs and changes nothing for the others.
-/

namespace FortranDeps.Build.DependencyGraph

/-- The graph after files were added with what they need, in order. -/
def addFiles (graph : DependencyGraph) (calls : List (Path × List Path)) : DependencyGraph :=
  calls.foldl (fun graph call => graph.addFile call.1 call.2) graph

def ofCalls (calls : List (Path × List Path)) : DependencyGraph := empty.addFiles calls

structure WellFormed (graph : DependencyGraph) : Prop where
  sizes : graph.edges.size = graph.files.size
  position_iff : ∀ components (node : Nat), graph.positions[components]? = some node ↔
    (graph.files[node]?).map Path.components = some components
  inside : ∀ node, ∀ need ∈ graph.edges.getD node [], need < graph.files.size

/-- One graph holds all files of another, at the same positions and with the same needs. -/
structure Extends (graph larger : DependencyGraph) : Prop where
  files : ∀ (node : Nat) path, graph.files[node]? = some path → larger.files[node]? = some path
  edges : ∀ (node : Nat), larger.edges.getD node [] = graph.edges.getD node []

theorem Extends.refl (graph : DependencyGraph) : graph.Extends graph :=
  ⟨fun _ _ found => found, fun _ => rfl⟩

theorem Extends.trans {graph middle larger : DependencyGraph} (first : graph.Extends middle)
    (second : middle.Extends larger) : graph.Extends larger :=
  ⟨fun node path found => second.files node path (first.files node path found),
    fun node => (second.edges node).trans (first.edges node)⟩

theorem entries_push_nil (edges : Array (List Nat)) (node : Nat) :
    (edges.push []).getD node [] = edges.getD node [] := by
  simp only [Array.getD_eq_getD_getElem?, Array.getElem?_push]
  by_cases last : node = edges.size
  · simp [last]
  · simp [last]

theorem well_formed_empty : empty.WellFormed := by
  constructor
  · rfl
  · intro components node
    simp [empty]
  · intro node need member
    simp [empty] at member

namespace WellFormed

variable {graph : DependencyGraph}

theorem file_of_position (formed : graph.WellFormed) {file : Path} {node : Nat}
    (found : graph.position? file = some node) :
    ∃ path, graph.files[node]? = some path ∧ path.components = file.components := by
  simpa using (formed.position_iff file.components node).mp found

theorem position_of_file (formed : graph.WellFormed) {file : Path} {node : Nat}
    (found : graph.files[node]? = some file) : graph.position? file = some node := by
  apply (formed.position_iff file.components node).mpr
  rw [found]
  rfl

theorem position_extends {larger : DependencyGraph} (formed : graph.WellFormed)
    (larger_formed : larger.WellFormed) (grown : graph.Extends larger) {file : Path} {node : Nat}
    (found : graph.position? file = some node) : larger.position? file = some node := by
  obtain ⟨path, there, same⟩ := formed.file_of_position found
  apply (larger_formed.position_iff file.components node).mpr
  rw [grown.files node path there, Option.map_some, same]

/-- A new file goes to the end and needs nothing yet. -/
theorem push (formed : graph.WellFormed) {file : Path} (absent : graph.contains file = false) :
    WellFormed ⟨graph.files.push file,
      graph.positions.insert file.components graph.files.size, graph.edges.push []⟩ := by
  have fresh : graph.positions[file.components]? = none :=
    Std.HashMap.getElem?_eq_none_of_contains_eq_false absent
  constructor
  · simp [formed.sizes]
  · intro components node
    rw [Std.HashMap.getElem?_insert, Array.getElem?_push]
    have before := formed.position_iff components node
    have outside : graph.files[graph.files.size]? = none := Array.getElem?_eq_none (Nat.le_refl _)
    by_cases own : file.components = components
    · subst own
      rw [fresh] at before
      by_cases last : node = graph.files.size
      · simp [last]
      · simpa [last, eq_comm] using before
    · by_cases last : node = graph.files.size
      · subst last
        rw [outside] at before
        simpa [own] using before
      · simpa [own, last] using before
  · intro node need member
    rw [entries_push_nil] at member
    rw [Array.size_push]
    exact Nat.lt_succ_of_lt (formed.inside node need member)

theorem mention (formed : graph.WellFormed) (file : Path) :
    (graph.mention file).WellFormed ∧ graph.Extends (graph.mention file) ∧
      ((graph.mention file).position? file).isSome = true := by
  unfold DependencyGraph.mention
  split
  · next there =>
      refine ⟨formed, .refl graph, ?_⟩
      rwa [position?, ← Std.HashMap.contains_eq_isSome_getElem?]
  · next absent =>
      refine ⟨formed.push (by simpa using absent), ⟨?_, ?_⟩, ?_⟩
      · intro node path found
        have inside := (Array.getElem?_eq_some_iff.mp found).choose
        rw [Array.getElem?_push, if_neg (Nat.ne_of_lt inside), found]
      · intro node
        exact entries_push_nil graph.edges node
      · simp [position?]

theorem mention_all (formed : graph.WellFormed) (files : List Path) :
    (files.foldl DependencyGraph.mention graph).WellFormed ∧
      graph.Extends (files.foldl DependencyGraph.mention graph) ∧
        ∀ file ∈ files,
          ((files.foldl DependencyGraph.mention graph).position? file).isSome = true := by
  induction files generalizing graph with
  | nil => exact ⟨formed, .refl graph, by simp⟩
  | cons first rest induction =>
      obtain ⟨next, grown, there⟩ := formed.mention first
      obtain ⟨final, later, others⟩ := induction next
      refine ⟨final, grown.trans later, ?_⟩
      intro file member
      rcases List.mem_cons.mp member with rfl | inRest
      · obtain ⟨node, found⟩ := Option.isSome_iff_exists.mp there
        exact Option.isSome_iff_exists.mpr ⟨node, next.position_extends final later found⟩
      · exact others file inRest

/-- Adding a file mentions it and what it needs, and then sets its needs. -/
theorem add_file_cases (formed : graph.WellFormed) (file : Path) (prerequisites : List Path) :
    ∃ (larger : DependencyGraph) (node : Nat), larger.WellFormed ∧ graph.Extends larger ∧
      larger.position? file = some node ∧
      (∀ prerequisite ∈ prerequisites, (larger.position? prerequisite).isSome = true) ∧
      graph.addFile file prerequisites =
        { larger with
          edges := larger.edges.setIfInBounds node
            (prerequisites.filterMap larger.position?) } := by
  obtain ⟨larger, grown, there⟩ := formed.mention_all (file :: prerequisites)
  obtain ⟨node, found⟩ := Option.isSome_iff_exists.mp (there file List.mem_cons_self)
  refine ⟨_, node, larger, grown, found, fun prerequisite member =>
    there prerequisite (List.mem_cons_of_mem file member), ?_⟩
  unfold addFile
  simp only [found]

theorem add_file (formed : graph.WellFormed) (file : Path) (prerequisites : List Path) :
    (graph.addFile file prerequisites).WellFormed := by
  obtain ⟨larger, node, formed, -, -, -, same⟩ := formed.add_file_cases file prerequisites
  rw [same]
  refine ⟨by simp [formed.sizes], formed.position_iff, ?_⟩
  intro other need member
  simp only [Array.getD_eq_getD_getElem?, Array.getElem?_setIfInBounds] at member
  split at member
  · split at member
    · obtain ⟨prerequisite, -, found⟩ := List.mem_filterMap.mp member
      obtain ⟨path, there, -⟩ := formed.file_of_position found
      exact (Array.getElem?_eq_some_iff.mp there).choose
    · simp at member
  · exact formed.inside other need (by rwa [Array.getD_eq_getD_getElem?])

/-- The added file needs what it was added with. -/
theorem prerequisites_add_file (formed : graph.WellFormed) (file : Path)
    (prerequisites : List Path) :
    ((graph.addFile file prerequisites).prerequisites file).map Path.components =
      prerequisites.map Path.components := by
  obtain ⟨larger, node, formed, -, found, there, same⟩ := formed.add_file_cases file prerequisites
  have inside : node < larger.edges.size := by
    obtain ⟨path, placed, -⟩ := formed.file_of_position found
    rw [formed.sizes]
    exact (Array.getElem?_eq_some_iff.mp placed).choose
  have own : (graph.addFile file prerequisites).prerequisites file =
      (prerequisites.filterMap larger.position?).filterMap (larger.files[·]?) := by
    rw [same]
    unfold DependencyGraph.prerequisites
    have position : DependencyGraph.position? { larger with
        edges := larger.edges.setIfInBounds node (prerequisites.filterMap larger.position?) }
        file = some node := found
    rw [position]
    simp [Array.getD_eq_getD_getElem?, inside]
  rw [own]
  clear own same
  induction prerequisites with
  | nil => rfl
  | cons first rest induction =>
      obtain ⟨position, known⟩ := Option.isSome_iff_exists.mp (there first List.mem_cons_self)
      obtain ⟨path, placed, equal⟩ := formed.file_of_position known
      rw [List.filterMap_cons_some known, List.filterMap_cons_some placed, List.map_cons,
        List.map_cons, equal, induction fun other member =>
          there other (List.mem_cons_of_mem first member)]

theorem prerequisites_extends {larger : DependencyGraph} (formed : graph.WellFormed)
    (larger_formed : larger.WellFormed) (grown : graph.Extends larger) (file : Path) :
    larger.prerequisites file = graph.prerequisites file := by
  unfold DependencyGraph.prerequisites
  cases found : graph.position? file with
  | some node =>
      rw [formed.position_extends larger_formed grown found]
      simp only [grown.edges]
      apply List.filterMap_congr
      intro need member
      have placed := Array.getElem?_eq_getElem (formed.inside node need member)
      rw [placed]
      exact grown.files need _ placed
  | none =>
      cases later : larger.position? file with
      | none => rfl
      | some node =>
          -- The file came in later, behind all files of the smaller graph.
          have outside : graph.files.size ≤ node := by
            apply Nat.le_of_not_lt
            intro inside
            obtain ⟨path, placed, same⟩ := larger_formed.file_of_position later
            have here := Array.getElem?_eq_getElem inside
            rw [grown.files node _ here] at placed
            have known := formed.position_of_file here
            rw [position?, Option.some.inj placed, same] at known
            rw [position?, known] at found
            cases found
          have nothing : graph.edges.getD node [] = [] := by
            have beyond : graph.edges.size ≤ node := by
              rw [formed.sizes]
              exact outside
            rw [Array.getD_eq_getD_getElem?, Array.getElem?_eq_none beyond]
            rfl
          simp only [grown.edges, nothing, List.filterMap_nil]

/-- What other files need stays as it was. -/
theorem prerequisites_add_file_other (formed : graph.WellFormed) {file other : Path}
    (differ : other.components ≠ file.components) (prerequisites : List Path) :
    (graph.addFile file prerequisites).prerequisites other = graph.prerequisites other := by
  obtain ⟨larger, node, larger_formed, grown, found, -, same⟩ :=
    formed.add_file_cases file prerequisites
  rw [← formed.prerequisites_extends larger_formed grown other, same]
  unfold DependencyGraph.prerequisites
  have position : DependencyGraph.position? { larger with
      edges := larger.edges.setIfInBounds node (prerequisites.filterMap larger.position?) }
      other = larger.position? other := rfl
  rw [position]
  cases known : larger.position? other with
  | none => rfl
  | some place =>
      have apart : node ≠ place := by
        rintro rfl
        obtain ⟨path, placed, own⟩ := larger_formed.file_of_position found
        obtain ⟨path', placed', own'⟩ := larger_formed.file_of_position known
        obtain rfl : path = path' := Option.some.inj (placed.symm.trans placed')
        exact differ (own'.symm.trans own)
      simp [Array.getD_eq_getD_getElem?, apart]

end WellFormed

/-! Graphs built by a sequence of calls. -/

theorem WellFormed.add_files {graph : DependencyGraph} (formed : graph.WellFormed)
    (calls : List (Path × List Path)) : (graph.addFiles calls).WellFormed := by
  induction calls generalizing graph with
  | nil => exact formed
  | cons call rest induction => exact induction (formed.add_file call.1 call.2)

theorem well_formed_of_calls (calls : List (Path × List Path)) : (ofCalls calls).WellFormed :=
  well_formed_empty.add_files calls

/-- What a file is added with last, starting from what it needs before the calls. -/
def addedWith (file : Path) (needed : List Path) (calls : List (Path × List Path)) : List Path :=
  calls.foldl (fun needed call =>
    if call.1.components = file.components then call.2 else needed) needed

theorem prerequisites_congr (graph : DependencyGraph) {file other : Path}
    (same : file.components = other.components) :
    graph.prerequisites file = graph.prerequisites other := by
  unfold prerequisites position?
  rw [same]

theorem WellFormed.prerequisites_add_files {graph : DependencyGraph} (formed : graph.WellFormed)
    {file : Path} {needed : List Path}
    (start : (graph.prerequisites file).map Path.components = needed.map Path.components)
    (calls : List (Path × List Path)) :
    ((graph.addFiles calls).prerequisites file).map Path.components =
      (addedWith file needed calls).map Path.components := by
  induction calls generalizing graph needed with
  | nil => exact start
  | cons call rest induction =>
      apply induction (formed.add_file call.1 call.2)
      beta_reduce
      split
      · next same => rw [← prerequisites_congr _ same, formed.prerequisites_add_file]
      · next differ => rw [formed.prerequisites_add_file_other (Ne.symm differ), start]

/-- A file needs what it was added with last, and nothing if it was never added. -/
theorem prerequisites_of_calls (calls : List (Path × List Path)) (file : Path) :
    ((ofCalls calls).prerequisites file).map Path.components =
      (addedWith file [] calls).map Path.components := by
  apply well_formed_empty.prerequisites_add_files
  simp [prerequisites, position?, empty]

theorem added_with_never {calls : List (Path × List Path)} {file : Path} {needed : List Path}
    (never : ∀ call ∈ calls, call.1.components ≠ file.components) :
    addedWith file needed calls = needed := by
  unfold addedWith
  induction calls with
  | nil => rfl
  | cons call rest induction =>
      rw [List.foldl_cons, if_neg (never call List.mem_cons_self)]
      exact induction fun other member => never other (List.mem_cons_of_mem call member)

theorem added_with_last {before after : List (Path × List Path)} {file : Path}
    {needed prerequisites : List Path}
    (last : ∀ call ∈ after, call.1.components ≠ file.components) :
    addedWith file needed (before ++ (file, prerequisites) :: after) = prerequisites := by
  rw [addedWith, List.foldl_append, List.foldl_cons, if_pos rfl]
  exact added_with_never last

end FortranDeps.Build.DependencyGraph

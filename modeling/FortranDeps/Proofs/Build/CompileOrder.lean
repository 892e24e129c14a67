import FortranDeps.Proofs.Build.Cycle
import FortranDeps.Proofs.Build.GraphShape
import FortranDeps.Proofs.Build.Order

/-!
The compile order of a dependency graph, in terms of its files. It exists exactly if no
file needs itself directly or indirectly, and it is then the least among all orders of the
files in which prerequisites come first, files being compared by their positions.
-/

namespace FortranDeps.Build.DependencyGraph

open Relation

def Needs (graph : DependencyGraph) (file need : Path) : Prop := need ∈ graph.prerequisites file

/-- No file needs itself, directly or indirectly. -/
def Acyclic (graph : DependencyGraph) : Prop := ∀ file, ¬TransGen graph.Needs file file

/-- All files, each once and after all its prerequisites. -/
structure IsSchedule (graph : DependencyGraph) (order : List Path) : Prop where
  perm : order.Perm graph.files.toList
  ordered : ∀ before file after, order = before ++ file :: after →
    ∀ need ∈ graph.prerequisites file, need ∈ before

/-- The positions of files. -/
def ranks (graph : DependencyGraph) (order : List Path) : List Nat :=
  order.map graph.files.toList.idxOf

/-! Files and nodes stand for each other. -/

theorem files_eq_map_file_at (graph : DependencyGraph) :
    graph.files.toList = (List.finRange graph.size).map graph.fileAt := by
  apply List.ext_getElem
  · simp
  · intro index first second
    simp [fileAt]

theorem exists_file_at {graph : DependencyGraph} {file : Path}
    (member : file ∈ graph.files.toList) : ∃ node, graph.fileAt node = file := by
  rw [files_eq_map_file_at] at member
  obtain ⟨node, -, same⟩ := List.mem_map.mp member
  exact ⟨node, same⟩

theorem get_elem?_files (graph : DependencyGraph) (number : Nat) :
    graph.files[number]? = (node? graph.size number).map graph.fileAt := by
  unfold node?
  by_cases inside : number < graph.files.size
  · simp [inside, fileAt]
  · simp [inside]

theorem exists_file_at_of_needs {graph : DependencyGraph} {file need : Path}
    (needed : graph.Needs file need) : ∃ node, graph.fileAt node = need := by
  unfold Needs prerequisites at needed
  split at needed
  · cases needed
  · obtain ⟨number, -, found⟩ := List.mem_filterMap.mp needed
    rw [get_elem?_files] at found
    obtain ⟨node, -, same⟩ := Option.map_eq_some_iff.mp found
    exact ⟨node, same⟩

theorem file_at_mem_files (graph : DependencyGraph) (node : Fin graph.size) :
    graph.fileAt node ∈ graph.files.toList := by
  rw [files_eq_map_file_at]
  exact List.mem_map_of_mem (List.mem_finRange node)

theorem mem_files_of_needs {graph : DependencyGraph} {file need : Path}
    (needed : graph.Needs file need) : need ∈ graph.files.toList := by
  obtain ⟨node, rfl⟩ := exists_file_at_of_needs needed
  exact graph.file_at_mem_files node

theorem mem_files_of_transitive {graph : DependencyGraph} {file need : Path}
    (needed : need ∈ graph.transitivePrerequisites file) : need ∈ graph.files.toList := by
  unfold transitivePrerequisites at needed
  split at needed
  · cases needed
  · obtain ⟨node, -, rfl⟩ := List.mem_map.mp (List.mem_mergeSort.mp needed)
    exact graph.file_at_mem_files node

theorem lex_map_val {size : Nat} {first second : List (Fin size)}
    (smaller : List.Lex (· < ·) first second) :
    List.Lex (· < ·) (first.map Fin.val) (second.map Fin.val) := by
  induction smaller with
  | nil => exact .nil
  | cons _ induction => exact .cons induction
  | rel less => exact .rel less

namespace WellFormed

variable {graph : DependencyGraph}

theorem position_file_at (formed : graph.WellFormed) (node : Fin graph.size) :
    graph.position? (graph.fileAt node) = some node.val :=
  formed.position_of_file (Array.getElem?_eq_getElem node.isLt)

theorem components_file_at_injective (formed : graph.WellFormed) :
    Function.Injective fun node => (graph.fileAt node).components := by
  intro first second same
  change (graph.fileAt first).components = (graph.fileAt second).components at same
  have position := formed.position_file_at first
  rw [position?, same, ← position?, formed.position_file_at second] at position
  exact Fin.ext (Option.some.inj position).symm

theorem file_at_injective (formed : graph.WellFormed) : Function.Injective graph.fileAt := by
  intro first second same
  exact formed.components_file_at_injective (congrArg Path.components same)

theorem prerequisites_file_at (formed : graph.WellFormed) (node : Fin graph.size) :
    graph.prerequisites (graph.fileAt node) = (graph.toDigraph node).map graph.fileAt := by
  unfold prerequisites toDigraph
  rw [formed.position_file_at node]
  simp only [get_elem?_files, List.map_filterMap]

theorem needs_file_at (formed : graph.WellFormed) (node need : Fin graph.size) :
    graph.Needs (graph.fileAt node) (graph.fileAt need) ↔ graph.toDigraph.Needs node need := by
  unfold Needs Digraph.Needs
  rw [formed.prerequisites_file_at node]
  exact List.mem_map_of_injective formed.file_at_injective

theorem files_nodup (formed : graph.WellFormed) : graph.files.toList.Nodup := by
  rw [files_eq_map_file_at]
  exact (List.nodup_finRange graph.size).map formed.file_at_injective

theorem idx_of_file_at (formed : graph.WellFormed) (node : Fin graph.size) :
    graph.files.toList.idxOf (graph.fileAt node) = node.val :=
  formed.files_nodup.idxOf_getElem node.val node.isLt

theorem ranks_map_file_at (formed : graph.WellFormed) (nodes : List (Fin graph.size)) :
    graph.ranks (nodes.map graph.fileAt) = nodes.map Fin.val := by
  unfold ranks
  rw [List.map_map]
  exact List.map_congr_left fun node _ => formed.idx_of_file_at node

/-- A path between files is a path between nodes. -/
theorem exists_path (formed : graph.WellFormed) {start : Fin graph.size} {target : Path}
    (path : TransGen graph.Needs (graph.fileAt start) target) :
    ∃ node, graph.fileAt node = target ∧ TransGen graph.toDigraph.Needs start node := by
  have step : ∀ node target, graph.Needs (graph.fileAt node) target →
      ∃ need, graph.fileAt need = target ∧ graph.toDigraph.Needs node need := by
    intro node target needed
    rw [Needs, formed.prerequisites_file_at] at needed
    obtain ⟨need, member, same⟩ := List.mem_map.mp needed
    exact ⟨need, same, member⟩
  induction path with
  | single needed =>
      obtain ⟨need, same, direct⟩ := step start _ needed
      exact ⟨need, same, .single direct⟩
  | tail _ needed earlier =>
      obtain ⟨node, rfl, path⟩ := earlier
      obtain ⟨need, same, direct⟩ := step node _ needed
      exact ⟨need, same, path.tail direct⟩

theorem acyclic_iff (formed : graph.WellFormed) : graph.Acyclic ↔ graph.toDigraph.Acyclic := by
  constructor
  · intro acyclic node cycle
    apply acyclic (graph.fileAt node)
    apply cycle.lift graph.fileAt
    intro first second needed
    exact (formed.needs_file_at first second).mpr needed
  · intro acyclic file cycle
    obtain ⟨user, -, needed⟩ := TransGen.tail'_iff.mp cycle
    obtain ⟨node, rfl⟩ := exists_file_at_of_needs needed
    obtain ⟨other, same, path⟩ := formed.exists_path cycle
    rw [formed.file_at_injective same] at path
    exact acyclic node path

theorem is_schedule_map_iff (formed : graph.WellFormed) (nodes : List (Fin graph.size)) :
    graph.IsSchedule (nodes.map graph.fileAt) ↔
      nodes.Perm (List.finRange graph.size) ∧ graph.toDigraph.Ordered nodes := by
  constructor
  · intro schedule
    constructor
    · have perm := schedule.perm
      rw [files_eq_map_file_at] at perm
      exact (List.map_perm_map_iff formed.file_at_injective).mp perm
    · intro before node after split need needed
      have earlier := schedule.ordered (before.map graph.fileAt) (graph.fileAt node)
        (after.map graph.fileAt) (by rw [split, List.map_append, List.map_cons])
        (graph.fileAt need) ((formed.needs_file_at node need).mpr needed)
      exact (List.mem_map_of_injective formed.file_at_injective).mp earlier
  · rintro ⟨perm, ordered⟩
    constructor
    · rw [files_eq_map_file_at]
      exact perm.map graph.fileAt
    · intro before file after split need needed
      obtain ⟨first, second, rfl, rfl, later⟩ := List.map_eq_append_iff.mp split
      obtain ⟨node, rest, rfl, rfl, rfl⟩ := List.map_eq_cons_iff.mp later
      rw [formed.prerequisites_file_at] at needed
      obtain ⟨other, member, rfl⟩ := List.mem_map.mp needed
      exact List.mem_map_of_mem (ordered first node rest rfl other member)

theorem exists_nodes_of_is_schedule {order : List Path} (schedule : graph.IsSchedule order) :
    ∃ nodes : List (Fin graph.size), order = nodes.map graph.fileAt := by
  have placed : ∀ file ∈ order, ∃ node, graph.fileAt node = file := fun file member =>
    exists_file_at (schedule.perm.mem_iff.mp member)
  clear schedule
  induction order with
  | nil => exact ⟨[], rfl⟩
  | cons file rest induction =>
      obtain ⟨node, rfl⟩ := placed file List.mem_cons_self
      obtain ⟨nodes, rfl⟩ := induction fun other member =>
        placed other (List.mem_cons_of_mem _ member)
      exact ⟨node :: nodes, rfl⟩

/-! The two outcomes. -/

theorem compile_order_of_acyclic (formed : graph.WellFormed) (acyclic : graph.Acyclic) :
    graph.compileOrder = .ok (graph.toDigraph.order.map graph.fileAt) := by
  have full := graph.toDigraph.length_order_eq_iff.mpr (formed.acyclic_iff.mp acyclic)
  unfold compileOrder
  rw [if_neg (not_not.mpr full)]
  rfl

/-- The check fails exactly if there is a cycle, and reports one. -/
theorem check_acyclic_cases (formed : graph.WellFormed) :
    (graph.Acyclic ∧ graph.checkAcyclic = .ok ()) ∨
      (¬graph.Acyclic ∧ ∃ cycle, graph.checkAcyclic = .error (.dependencyCycle cycle)) := by
  unfold checkAcyclic
  rw [formed.acyclic_iff, ← Digraph.find_cycle_eq_none_iff]
  cases graph.toDigraph.findCycle with
  | none => exact .inl ⟨rfl, rfl⟩
  | some cycle => exact .inr ⟨Option.some_ne_none cycle, cycle.map graph.fileAt, rfl⟩

/-- An incomplete order is never returned: the search then finds a cycle. -/
theorem compile_order_of_not_acyclic (formed : graph.WellFormed) (cyclic : ¬graph.Acyclic) :
    ∃ cycle, graph.compileOrder = .error (.dependencyCycle cycle) := by
  have incomplete : graph.toDigraph.order.length ≠ graph.size := fun full =>
    cyclic (formed.acyclic_iff.mpr (graph.toDigraph.length_order_eq_iff.mp full))
  unfold compileOrder
  rw [if_pos incomplete]
  rcases formed.check_acyclic_cases with ⟨acyclic, -⟩ | ⟨-, cycle, failed⟩
  · exact absurd acyclic cyclic
  · exact ⟨cycle, by rw [failed]; rfl⟩

theorem is_schedule_order (formed : graph.WellFormed) (acyclic : graph.Acyclic) :
    graph.IsSchedule (graph.toDigraph.order.map graph.fileAt) :=
  (formed.is_schedule_map_iff _).mpr
    ⟨Digraph.order_perm_of_acyclic (formed.acyclic_iff.mp acyclic), graph.toDigraph.order_ordered⟩

theorem order_least (formed : graph.WellFormed) {other : List Path}
    (schedule : graph.IsSchedule other) :
    graph.toDigraph.order.map graph.fileAt = other ∨
      List.Lex (· < ·) (graph.ranks (graph.toDigraph.order.map graph.fileAt))
        (graph.ranks other) := by
  obtain ⟨nodes, rfl⟩ := exists_nodes_of_is_schedule schedule
  obtain ⟨perm, ordered⟩ := (formed.is_schedule_map_iff nodes).mp schedule
  rw [formed.ranks_map_file_at, formed.ranks_map_file_at]
  rcases Digraph.order_least ordered perm with same | smaller
  · exact .inl (congrArg _ same)
  · exact .inr (lex_map_val smaller)

end WellFormed

/-- In a graph built by adding files, each file needs what it was added with last. The
compile order exists exactly if there is no cycle; it is then the least of all schedules,
and otherwise a cycle is reported. -/
theorem compile_order_least_schedule (calls : List (Path × List Path)) :
    (∀ file, ((ofCalls calls).prerequisites file).map Path.components =
      (addedWith file [] calls).map Path.components) ∧
    ((∃ order, (ofCalls calls).compileOrder = .ok order) ↔ (ofCalls calls).Acyclic) ∧
    (∀ order, (ofCalls calls).compileOrder = .ok order →
      (ofCalls calls).IsSchedule order ∧
        ∀ other, (ofCalls calls).IsSchedule other →
          order = other ∨
            List.Lex (· < ·) ((ofCalls calls).ranks order) ((ofCalls calls).ranks other)) ∧
    (∀ diagnostic, (ofCalls calls).compileOrder = .error diagnostic →
      ∃ cycle, diagnostic = .dependencyCycle cycle) := by
  refine ⟨prerequisites_of_calls calls, ?_⟩
  have formed := well_formed_of_calls calls
  generalize ofCalls calls = graph at formed
  by_cases acyclic : graph.Acyclic
  · have computed := formed.compile_order_of_acyclic acyclic
    refine ⟨⟨fun _ => acyclic, fun _ => ⟨_, computed⟩⟩, ?_, ?_⟩
    · intro order found
      obtain rfl := Except.ok.inj (computed.symm.trans found)
      exact ⟨formed.is_schedule_order acyclic, fun other schedule => formed.order_least schedule⟩
    · intro diagnostic failed
      rw [computed] at failed
      cases failed
  · obtain ⟨cycle, failed⟩ := formed.compile_order_of_not_acyclic acyclic
    refine ⟨⟨?_, fun no => absurd no acyclic⟩, ?_, ?_⟩
    · rintro ⟨order, found⟩
      rw [failed] at found
      cases found
    · intro order found
      rw [failed] at found
      cases found
    · intro diagnostic found
      exact ⟨cycle, Except.error.inj (found.symm.trans failed)⟩

end FortranDeps.Build.DependencyGraph

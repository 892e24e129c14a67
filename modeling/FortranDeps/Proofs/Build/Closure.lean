import FortranDeps.Proofs.Build.CompileOrder
import FortranDeps.Proofs.Files.PathOrder

/-!
What a node needs directly or indirectly. The worklist holds the nodes whose needs are not
looked at yet, and every need of another node is met. When the worklist is empty, the nodes
met are closed under needs, so they are all that can be reached.
-/

namespace FortranDeps.Build

open Relation

variable {size : Nat}

theorem Marks.has_none (node : Fin size) : (Marks.none : Marks size).has node = false := by
  simp [Marks.none, Marks.has]

theorem Marks.has_add_all (nodes : List (Fin size)) (marks : Marks size) (other : Fin size) :
    (nodes.foldl Marks.add marks).has other = true ↔ other ∈ nodes ∨ marks.has other = true := by
  induction nodes generalizing marks with
  | nil => simp
  | cons first rest induction =>
      rw [List.foldl_cons, induction, Marks.has_add, Bool.or_eq_true, decide_eq_true_eq,
        List.mem_cons, eq_comm (a := first)]
      tauto

namespace Digraph

variable {graph : Digraph size} {start node : Fin size} {met : Marks size}
  {rest : List (Fin size)}

/-- A state of the search: what is met can be reached, and of the nodes that are met only those
on the worklist have needs that are not. -/
structure Gathering (graph : Digraph size) (start : Fin size) (met : Marks size)
    (worklist : List (Fin size)) : Prop where
  reached : ∀ node, met.has node = true → node ≠ start ∧ TransGen graph.Needs start node
  known : ∀ node ∈ worklist, node = start ∨ met.has node = true
  closed : ∀ node, node = start ∨ met.has node = true → node ∉ worklist →
    ∀ need ∈ graph node, need = start ∨ met.has need = true

/-- The needs of a node that are met for the first time. -/
def freshNeeds (graph : Digraph size) (start : Fin size) (met : Marks size) (node : Fin size) :
    List (Fin size) :=
  (graph node).filter fun need => need ≠ start && !met.has need

theorem mem_fresh_needs {need : Fin size} :
    need ∈ graph.freshNeeds start met node ↔
      need ∈ graph node ∧ need ≠ start ∧ met.has need = false := by
  simp [freshNeeds]

namespace Gathering

theorem init (graph : Digraph size) (start : Fin size) :
    Gathering graph start Marks.none [start] := by
  constructor
  · intro node known
    rw [Marks.has_none] at known
    cases known
  · intro node member
    exact .inl (List.mem_singleton.mp member)
  · intro node known outside
    rw [Marks.has_none] at known
    simp_all

/-- One round: the first node of the worklist gives way to its fresh needs. -/
theorem step (gathering : Gathering graph start met (node :: rest)) {next : Marks size}
    (marked : ∀ other, next.has other = true ↔
      other ∈ graph.freshNeeds start met node ∨ met.has other = true) :
    Gathering graph start next (graph.freshNeeds start met node ++ rest) := by
  have path : ∀ need ∈ graph node, TransGen graph.Needs start need := by
    intro need needed
    rcases gathering.known node List.mem_cons_self with rfl | known
    · exact .single needed
    · exact (gathering.reached node known).2.tail needed
  constructor
  · intro other known
    rcases (marked other).mp known with fresh | earlier
    · obtain ⟨needed, apart, -⟩ := mem_fresh_needs.mp fresh
      exact ⟨apart, path other needed⟩
    · exact gathering.reached other earlier
  · intro other member
    rcases List.mem_append.mp member with fresh | later
    · exact .inr ((marked other).mpr (.inl fresh))
    · refine (gathering.known other (List.mem_cons_of_mem node later)).imp_right ?_
      intro earlier
      exact (marked other).mpr (.inr earlier)
  · intro other known outside need needed
    rw [List.mem_append, not_or] at outside
    have earlier : other = start ∨ met.has other = true := by
      refine known.imp_right ?_
      intro met
      exact ((marked other).mp met).resolve_left outside.1
    by_cases own : other = node
    · subst own
      by_cases fresh : need ∈ graph.freshNeeds start met other
      · exact .inr ((marked need).mpr (.inl fresh))
      · by_cases same : need = start
        · exact .inl same
        · have old : met.has need = true := by
            by_contra missing
            exact fresh (mem_fresh_needs.mpr ⟨needed, same, by simpa using missing⟩)
          exact .inr ((marked need).mpr (.inr old))
    · have behind : other ∉ node :: rest := by simp [own, outside.2]
      refine (gathering.closed other earlier behind need needed).imp_right ?_
      intro old
      exact (marked need).mpr (.inr old)

theorem of_gather {worklist : List (Fin size)} (gathering : Gathering graph start met worklist) :
    Gathering graph start (graph.gather start met worklist) [] := by
  -- The two branches of the search differ only in that no fresh need leaves the marks alone.
  have next {met : Marks size} {node : Fin size} {rest : List (Fin size)}
      (before : Gathering graph start met (node :: rest)) :
      Gathering graph start ((graph.freshNeeds start met node).foldl Marks.add met)
        (graph.freshNeeds start met node ++ rest) :=
    before.step fun other => Marks.has_add_all _ met other
  fun_induction gather graph start met worklist with
  | case1 met => exact gathering
  | case2 met node rest fresh none induction =>
      have after := next gathering
      rw [show graph.freshNeeds start met node = [] from none] at after
      exact induction after
  | case3 met node rest fresh need others split induction =>
      have after := next gathering
      rw [show graph.freshNeeds start met node = need :: others from split] at after
      exact induction after

/-- Without a worklist everything that can be reached is met. -/
theorem complete (gathering : Gathering graph start met [])
    (path : TransGen graph.Needs start node) : node = start ∨ met.has node = true := by
  induction path with
  | single needed => exact gathering.closed start (.inl rfl) List.not_mem_nil _ needed
  | tail _ needed known => exact gathering.closed _ known List.not_mem_nil _ needed

end Gathering

theorem mem_closure_iff (graph : Digraph size) (start node : Fin size) :
    node ∈ graph.closure start ↔ node ≠ start ∧ TransGen graph.Needs start node := by
  have final := (Gathering.init graph start).of_gather
  have member : node ∈ graph.closure start ↔
      (graph.gather start Marks.none [start]).has node = true := by
    unfold closure
    rw [List.mem_filter]
    exact and_iff_right (List.mem_finRange node)
  rw [member]
  constructor
  · exact final.reached node
  · rintro ⟨apart, path⟩
    exact (final.complete path).resolve_left apart

theorem closure_nodup (graph : Digraph size) (start : Fin size) : (graph.closure start).Nodup :=
  (List.nodup_finRange size).filter _

end Digraph

namespace DependencyGraph.WellFormed

variable {graph : DependencyGraph}

theorem transitive_file_at (formed : graph.WellFormed) (node : Fin graph.size) :
    (graph.transitivePrerequisites (graph.fileAt node)).Perm
      ((graph.toDigraph.closure node).map graph.fileAt) := by
  unfold transitivePrerequisites
  have found : (graph.position? (graph.fileAt node)).bind (node? graph.size) = some node := by
    rw [formed.position_file_at node]
    simp [node?]
  rw [found]
  exact List.mergeSort_perm _ _

theorem transitive_nodup (formed : graph.WellFormed) {file : Path}
    (member : file ∈ graph.files.toList) : (graph.transitivePrerequisites file).Nodup := by
  obtain ⟨node, rfl⟩ := exists_file_at member
  rw [(formed.transitive_file_at node).nodup_iff]
  exact (graph.toDigraph.closure_nodup node).map formed.file_at_injective

/-- The indirect prerequisites of a file are the other files that can be reached from it. -/
theorem mem_transitive_iff (formed : graph.WellFormed) {file need : Path}
    (member : file ∈ graph.files.toList) :
    need ∈ graph.transitivePrerequisites file ↔ need ≠ file ∧ TransGen graph.Needs file need := by
  obtain ⟨node, rfl⟩ := exists_file_at member
  rw [(formed.transitive_file_at node).mem_iff, List.mem_map]
  constructor
  · rintro ⟨other, inClosure, rfl⟩
    obtain ⟨apart, path⟩ := (graph.toDigraph.mem_closure_iff node other).mp inClosure
    constructor
    · intro same
      exact apart (formed.file_at_injective same)
    · apply path.lift graph.fileAt
      intro first second needed
      exact (formed.needs_file_at first second).mpr needed
  · rintro ⟨apart, path⟩
    obtain ⟨other, rfl, way⟩ := formed.exists_path path
    refine ⟨other, (graph.toDigraph.mem_closure_iff node other).mpr ⟨?_, way⟩, rfl⟩
    rintro rfl
    exact apart rfl

end DependencyGraph.WellFormed

/-! Paths in any spelling. -/

namespace DependencyGraph

variable {graph : DependencyGraph} {file other need : Path}

theorem transitive_congr (same : file.components = other.components) :
    graph.transitivePrerequisites file = graph.transitivePrerequisites other := by
  unfold transitivePrerequisites position?
  rw [same]

theorem path_congr (same : file.components = other.components) :
    TransGen graph.Needs file need ↔ TransGen graph.Needs other need := by
  have first (next : Path) : graph.Needs file next ↔ graph.Needs other next := by
    unfold Needs
    rw [graph.prerequisites_congr same]
  simp only [TransGen.head'_iff, first]

theorem transitive_of_absent (absent : graph.position? file = none) :
    graph.transitivePrerequisites file = [] := by
  unfold transitivePrerequisites
  rw [absent]
  rfl

namespace WellFormed

variable (formed : graph.WellFormed)

include formed

theorem transitive_ascending (file : Path) :
    (graph.transitivePrerequisites file).Pairwise Path.Precedes := by
  unfold transitivePrerequisites
  split
  · exact .nil
  · next node found =>
      apply Path.merge_sort_ascending
      rw [List.map_map]
      exact (graph.toDigraph.closure_nodup node).map formed.components_file_at_injective

theorem mem_transitive (file need : Path) :
    need ∈ graph.transitivePrerequisites file ↔
      need.components ≠ file.components ∧ TransGen graph.Needs file need := by
  cases found : graph.position? file with
  | none =>
      rw [transitive_of_absent found]
      simp only [List.not_mem_nil, false_iff, not_and]
      intro _ path
      obtain ⟨next, needed, -⟩ := TransGen.head'_iff.mp path
      rw [Needs, prerequisites, found] at needed
      cases needed
  | some number =>
      obtain ⟨stored, placed, same⟩ := formed.file_of_position found
      have member : stored ∈ graph.files.toList := Array.mem_toList_iff.mpr
        (Array.mem_of_getElem? placed)
      rw [← transitive_congr same, ← path_congr same, ← same, formed.mem_transitive_iff member]
      apply and_congr_left
      intro path
      -- Two files of the graph are one if they have the same components.
      obtain ⟨start, rfl⟩ := exists_file_at member
      obtain ⟨node, rfl, -⟩ := formed.exists_path path
      rw [not_iff_not]
      constructor
      · intro equal
        rw [equal]
      · intro equal
        rw [formed.components_file_at_injective equal]

end WellFormed

/-- In a graph that is built by adding files, cyclic or not, the indirect prerequisites of a path,
in whatever spelling, are the files that can be reached from it along prerequisites, without the
file itself; they are strictly ascending, and there are none for a path outside the graph. -/
theorem transitive_prerequisites_closure (calls : List (Path × List Path)) (file : Path) :
    let graph := ofCalls calls
    (graph.transitivePrerequisites file).Pairwise Path.Precedes ∧
    (∀ need, need ∈ graph.transitivePrerequisites file ↔
      need.components ≠ file.components ∧ TransGen graph.Needs file need) ∧
    (graph.contains file = false → graph.transitivePrerequisites file = []) := by
  intro graph
  have formed : graph.WellFormed := well_formed_of_calls calls
  refine ⟨formed.transitive_ascending file, formed.mem_transitive file, ?_⟩
  intro outside
  apply transitive_of_absent
  exact Std.HashMap.getElem?_eq_none_of_contains_eq_false outside

end DependencyGraph

end FortranDeps.Build

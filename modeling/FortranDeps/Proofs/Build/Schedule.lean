import FortranDeps.Build.Digraph
import Mathlib

/-!
Orders of the nodes of a graph, without regard to how they are computed. An order is valid
if each node comes after all it needs; a graph has a valid order of all its nodes exactly
if it has no cycle. Taking the first available node again and again gives the valid order
that is lexicographically least.
-/

namespace FortranDeps.Build.Digraph

open Relation

variable {size : Nat} {graph : Digraph size} {taken nodes : List (Fin size)}

def Needs (graph : Digraph size) (node need : Fin size) : Prop := need ∈ graph node

/-- No node needs itself, directly or indirectly. -/
def Acyclic (graph : Digraph size) : Prop := ∀ node, ¬TransGen graph.Needs node node

/-- Each node of the list comes after all it needs. -/
def Ordered (graph : Digraph size) (nodes : List (Fin size)) : Prop :=
  ∀ before node after, nodes = before ++ node :: after → ∀ need ∈ graph node, need ∈ before

theorem ordered_nil (graph : Digraph size) : graph.Ordered [] := by
  intro before node after split
  simp at split

theorem Ordered.snoc (ordered : graph.Ordered nodes) {node : Fin size}
    (met : ∀ need ∈ graph node, need ∈ nodes) : graph.Ordered (nodes ++ [node]) := by
  intro before other after split need needed
  rcases List.eq_nil_or_concat after with rfl | ⟨shorter, last, rfl⟩
  · obtain ⟨rfl, same⟩ := List.append_inj' split rfl
    obtain rfl : node = other := by simpa using same
    exact met need needed
  · rw [List.concat_eq_append, ← List.cons_append, ← List.append_assoc] at split
    obtain ⟨same, -⟩ := List.append_inj' split rfl
    exact ordered before other shorter same need needed

theorem Ordered.idx_of_lt (ordered : graph.Ordered nodes) {node need : Fin size}
    (member : node ∈ nodes) (needed : need ∈ graph node) :
    nodes.idxOf need < nodes.idxOf node := by
  obtain ⟨before, after, rfl, fresh⟩ := List.eq_append_cons_of_mem member
  have earlier : need ∈ before := ordered before node after rfl need needed
  rw [List.idxOf_append_of_mem earlier, List.idxOf_append_of_notMem fresh]
  exact Nat.lt_add_right _ (List.idxOf_lt_length_of_mem earlier)

theorem acyclic_of_ordered (ordered : graph.Ordered nodes) (all : ∀ node, node ∈ nodes) :
    graph.Acyclic := by
  have descends : ∀ node need, TransGen graph.Needs node need →
      nodes.idxOf need < nodes.idxOf node := by
    intro node need path
    induction path with
    | single needed => exact ordered.idx_of_lt (all node) needed
    | tail _ needed earlier => exact (ordered.idx_of_lt (all _) needed).trans earlier
  intro node cycle
  exact Nat.lt_irrefl _ (descends node node cycle)

/-- A node that can be taken next. -/
def Available (graph : Digraph size) (taken : List (Fin size)) (node : Fin size) : Prop :=
  node ∉ taken ∧ ∀ need ∈ graph node, need ∈ taken

theorem Available.nodup_snoc {node : Fin size} (available : graph.Available taken node)
    (nodup : taken.Nodup) : (taken ++ [node]).Nodup :=
  List.nodup_append'.mpr
    ⟨nodup, List.nodup_singleton node, List.disjoint_singleton.mpr available.1⟩

theorem Acyclic.well_founded (acyclic : graph.Acyclic) :
    WellFounded fun need node => TransGen graph.Needs node need := by
  have : IsTrans (Fin size) fun need node => TransGen graph.Needs node need :=
    ⟨fun _ _ _ first second => TransGen.trans second first⟩
  have : Std.Irrefl fun need node => TransGen graph.Needs node need := ⟨acyclic⟩
  exact Finite.wellFounded_of_trans_of_irrefl _

/-- As long as a node is missing, one can be taken: a missing node whose needs are not
missing, which is minimal among the missing ones. -/
theorem Acyclic.exists_available (acyclic : graph.Acyclic) {node : Fin size}
    (missing : node ∉ taken) : ∃ next, graph.Available taken next := by
  obtain ⟨next, absent, minimal⟩ :=
    acyclic.well_founded.has_min { other | other ∉ taken } ⟨node, missing⟩
  refine ⟨next, absent, ?_⟩
  intro need needed
  by_contra unmet
  exact minimal need unmet (TransGen.single needed)

/-- The list that is built by taking the first available node, again and again, until no
node is available. -/
inductive Greedy (graph : Digraph size) : (taken nodes : List (Fin size)) → Prop where
  | done {taken : List (Fin size)} (none : ∀ node, ¬graph.Available taken node) :
      Greedy graph taken []
  | take {taken rest : List (Fin size)} {node : Fin size}
      (available : graph.Available taken node)
      (least : ∀ other, graph.Available taken other → node ≤ other)
      (later : Greedy graph (taken ++ [node]) rest) : Greedy graph taken (node :: rest)

namespace Greedy

theorem ordered (greedy : Greedy graph taken nodes) (start : graph.Ordered taken) :
    graph.Ordered (taken ++ nodes) := by
  induction greedy with
  | done => simpa using start
  | take available _ _ induction => simpa using induction (start.snoc available.2)

theorem nodup (greedy : Greedy graph taken nodes) (start : taken.Nodup) :
    (taken ++ nodes).Nodup := by
  induction greedy with
  | done => simpa using start
  | take available _ _ induction => simpa using induction (available.nodup_snoc start)

theorem complete (greedy : Greedy graph taken nodes) (acyclic : graph.Acyclic)
    (node : Fin size) : node ∈ taken ++ nodes := by
  induction greedy with
  | done none =>
      by_contra missing
      obtain ⟨next, available⟩ :=
        acyclic.exists_available (fun member => missing (List.mem_append_left [] member))
      exact none next available
  | take _ _ _ induction => simpa using induction

/-- The first node of the rest of a valid order is available. -/
theorem available_head {node : Fin size} {rest : List (Fin size)}
    (ordered : graph.Ordered (taken ++ node :: rest)) (nodup : (taken ++ node :: rest).Nodup) :
    graph.Available taken node := by
  constructor
  · intro earlier
    exact (List.nodup_append'.mp nodup).2.2 earlier List.mem_cons_self
  · exact ordered taken node rest rfl

/-- Every other valid order of all nodes is lexicographically greater. -/
theorem least (greedy : Greedy graph taken nodes) {other : List (Fin size)}
    (ordered : graph.Ordered (taken ++ other)) (nodup : (taken ++ other).Nodup)
    (all : ∀ node, node ∈ taken ++ other) :
    nodes = other ∨ List.Lex (· < ·) nodes other := by
  induction greedy generalizing other with
  | done none =>
      cases other with
      | nil => exact .inl rfl
      | cons node rest => exact absurd (available_head ordered nodup) (none node)
  | @take taken rest node available least later induction =>
      cases other with
      | nil => exact absurd (all node) (by simpa using available.1)
      | cons first others =>
          have bound := least first (available_head ordered nodup)
          rcases Nat.lt_or_eq_of_le bound with smaller | equal
          · exact .inr (.rel smaller)
          · obtain rfl : node = first := Fin.ext equal
            rcases induction (by simpa using ordered) (by simpa using nodup)
              (by simpa using all) with rfl | smaller
            · exact .inl rfl
            · exact .inr (.cons smaller)

end Greedy

end FortranDeps.Build.Digraph

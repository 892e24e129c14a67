import FortranDeps.Proofs.Build.Schedule

/-!
The computed order is the greedy one. A state of the computation tracks the nodes taken so
far: each count of open needs is the number of needs not taken, with repetitions, and the
ready list holds the available nodes in ascending order. Taking the first ready node and
releasing its dependents keeps a state tracking.
-/

namespace FortranDeps.Build.Digraph

variable {size : Nat} {graph : Digraph size} {taken : List (Fin size)}

theorem get_set {Value : Type} (table : Vector Value size) (node other : Fin size)
    (value : Value) :
    (table.set node.val value node.isLt).get other =
      if node = other then value else table.get other := by
  change (table.set node.val value node.isLt)[other.val] =
    if node = other then value else table[other.val]
  rw [Vector.getElem_set]
  by_cases same : node = other
  · simp [same]
  · have differ : node.val ≠ other.val := fun equal => same (Fin.ext equal)
    simp [same, differ]

/-! Dependents: a node stands among the dependents of another one as often as it needs it. -/

/-- Adds a node to the dependents of one that it needs. -/
def addDependent (node : Fin size) (table : Vector (List (Fin size)) size) (need : Fin size) :
    Vector (List (Fin size)) size :=
  table.set need.val (node :: table.get need) need.isLt

theorem dependents_eq_foldl (graph : Digraph size) :
    graph.dependents = (List.finRange size).foldl
      (fun table node => (graph node).foldl (addDependent node) table)
      (Vector.replicate size []) := rfl

theorem count_add_dependents (node other need : Fin size) (needs : List (Fin size))
    (table : Vector (List (Fin size)) size) :
    ((needs.foldl (addDependent node) table).get need).count other =
      (table.get need).count other + (if other = node then needs.count need else 0) := by
  induction needs generalizing table with
  | nil => simp
  | cons first rest induction =>
      rw [List.foldl_cons, induction, addDependent, get_set]
      by_cases same : first = need
      · subst same
        by_cases own : other = node
        · subst own
          simp
          omega
        · have differ : ¬node = other := fun equal => own equal.symm
          simp [own, differ]
      · simp [same]

theorem count_dependents (graph : Digraph size) (node need : Fin size) :
    (graph.dependents.get need).count node = (graph node).count need := by
  have general (nodes : List (Fin size)) (table : Vector (List (Fin size)) size) :
      ((nodes.foldl (fun table node => (graph node).foldl (addDependent node) table)
          table).get need).count node =
        (table.get need).count node + nodes.count node * (graph node).count need := by
    induction nodes generalizing table with
    | nil => simp
    | cons first rest induction =>
        rw [List.foldl_cons, induction, count_add_dependents, List.count_cons]
        by_cases same : first = node
        · subst same
          simp [Nat.add_mul]
          omega
        · have differ : ¬node = first := fun equal => same equal.symm
          simp [same, differ]
  have once : (List.finRange size).count node = 1 :=
    List.count_eq_one_of_mem (List.nodup_finRange size) (List.mem_finRange node)
  have empty : (Vector.replicate size ([] : List (Fin size))).get need = [] :=
    Vector.getElem_replicate need.isLt
  rw [dependents_eq_foldl, general, once, empty, List.count_nil, Nat.zero_add, Nat.one_mul]

/-! Releasing. -/

theorem mem_insert_ready {node other : Fin size} {ready : List (Fin size)} :
    other ∈ insertReady node ready ↔ other = node ∨ other ∈ ready := by
  induction ready with
  | nil => simp [insertReady]
  | cons first rest induction =>
      rw [insertReady]
      split
      · simp
      · simp only [List.mem_cons, induction]
        tauto

theorem insert_ready_sorted {node : Fin size} {ready : List (Fin size)}
    (sorted : ready.Pairwise (· < ·)) (fresh : node ∉ ready) :
    (insertReady node ready).Pairwise (· < ·) := by
  induction ready with
  | nil => simp [insertReady]
  | cons first rest induction =>
      have parts := List.pairwise_cons.mp sorted
      have others := not_or.mp fun member => fresh (List.mem_cons.mpr member)
      rw [insertReady]
      split
      · next smaller =>
          refine List.pairwise_cons.mpr ⟨?_, sorted⟩
          intro other member
          rcases List.mem_cons.mp member with rfl | later
          · exact smaller
          · exact smaller.trans (parts.1 other later)
      · next notSmaller =>
          refine List.pairwise_cons.mpr ⟨?_, induction parts.2 others.2⟩
          intro other member
          rcases mem_insert_ready.mp member with rfl | later
          · exact lt_of_le_of_ne (not_lt.mp notSmaller) (Ne.symm others.1)
          · exact parts.1 other later

namespace Waiting

/-- The ready list is ascending, and its nodes wait for nothing. -/
structure Tidy (waiting : Waiting size) : Prop where
  sorted : waiting.ready.Pairwise (· < ·)
  idle : ∀ node ∈ waiting.ready, waiting.pending.get node = 0

/-- What a release does, by the number of needs that are still open. -/
theorem release_cases (waiting : Waiting size) (node : Fin size) :
    (waiting.pending.get node = 0 ∧ waiting.release node = waiting) ∨
    (waiting.pending.get node = 1 ∧ waiting.release node =
      ⟨waiting.pending.set node.val 0 node.isLt, insertReady node waiting.ready⟩) ∨
    ∃ more, waiting.pending.get node = more + 2 ∧ waiting.release node =
      ⟨waiting.pending.set node.val (more + 1) node.isLt, waiting.ready⟩ := by
  unfold release
  split
  · next none => exact .inl ⟨none, rfl⟩
  · next last => exact .inr (.inl ⟨last, rfl⟩)
  · next more several => exact .inr (.inr ⟨more, several, rfl⟩)

theorem pending_release (waiting : Waiting size) (node other : Fin size) :
    (waiting.release node).pending.get other =
      waiting.pending.get other - (if node = other then 1 else 0) := by
  obtain ⟨found, same⟩ | ⟨found, same⟩ | ⟨more, found, same⟩ := waiting.release_cases node
  · rw [same]
    split
    · next own => rw [← own, found]
    · rfl
  · rw [same, get_set]
    split
    · next own => rw [← own, found]
    · rfl
  · rw [same, get_set]
    split
    · next own => rw [← own, found, Nat.add_sub_assoc (by decide)]
    · rfl

theorem mem_ready_release (waiting : Waiting size) (node other : Fin size) :
    other ∈ (waiting.release node).ready ↔
      other ∈ waiting.ready ∨ (other = node ∧ waiting.pending.get node = 1) := by
  obtain ⟨found, same⟩ | ⟨found, same⟩ | ⟨more, found, same⟩ := waiting.release_cases node
  · simp [same, found]
  · simp [same, found, mem_insert_ready, or_comm]
  · simp [same, found]

theorem Tidy.release {waiting : Waiting size} (tidy : waiting.Tidy) (node : Fin size) :
    (waiting.release node).Tidy := by
  constructor
  · obtain ⟨-, same⟩ | ⟨last, same⟩ | ⟨more, -, same⟩ := waiting.release_cases node
    · rw [same]
      exact tidy.sorted
    · rw [same]
      apply insert_ready_sorted tidy.sorted
      intro member
      rw [tidy.idle node member] at last
      exact absurd last (by decide)
    · rw [same]
      exact tidy.sorted
  · intro other member
    rw [pending_release]
    rcases (mem_ready_release waiting node other).mp member with earlier | ⟨rfl, last⟩
    · rw [tidy.idle other earlier, Nat.zero_sub]
    · rw [last]
      simp

theorem pending_release_all (nodes : List (Fin size)) (waiting : Waiting size) (other : Fin size) :
    (nodes.foldl Waiting.release waiting).pending.get other =
      waiting.pending.get other - nodes.count other := by
  induction nodes generalizing waiting with
  | nil => simp
  | cons first rest induction =>
      rw [List.foldl_cons, induction, pending_release, List.count_cons]
      by_cases same : first = other
      · subst same
        simp
        omega
      · simp [same]

theorem mem_ready_release_all (nodes : List (Fin size)) (waiting : Waiting size)
    (other : Fin size) :
    other ∈ (nodes.foldl Waiting.release waiting).ready ↔
      other ∈ waiting.ready ∨
        (0 < waiting.pending.get other ∧ waiting.pending.get other ≤ nodes.count other) := by
  induction nodes generalizing waiting with
  | nil =>
      simp
      omega
  | cons first rest induction =>
      rw [List.foldl_cons, induction, pending_release, mem_ready_release, List.count_cons]
      by_cases same : first = other
      · subst same
        by_cases member : first ∈ waiting.ready
        · simp [member]
        · simp only [member, true_and, false_or, if_pos, BEq.rfl]
          omega
      · have differ : ¬other = first := fun equal => same equal.symm
        simp [same, differ]

theorem Tidy.release_all {waiting : Waiting size} (tidy : waiting.Tidy)
    (nodes : List (Fin size)) : (nodes.foldl Waiting.release waiting).Tidy := by
  induction nodes generalizing waiting with
  | nil => exact tidy
  | cons first rest induction => exact induction (tidy.release first)

end Waiting

/-! Tracking. -/

/-- The number of needs of a node that are not taken, with repetitions. -/
def openNeeds (graph : Digraph size) (taken : List (Fin size)) (node : Fin size) : Nat :=
  (graph node).countP (· ∉ taken)

theorem available_iff (graph : Digraph size) (taken : List (Fin size)) (node : Fin size) :
    graph.Available taken node ↔ node ∉ taken ∧ graph.openNeeds taken node = 0 := by
  unfold Available openNeeds
  rw [List.countP_eq_zero]
  simp only [decide_eq_true_eq, not_not]

theorem open_needs_take {next : Fin size} (fresh : next ∉ taken) (node : Fin size) :
    graph.openNeeds (taken ++ [next]) node =
      graph.openNeeds taken node - (graph node).count next := by
  have split (needs : List (Fin size)) :
      needs.countP (· ∉ taken) = needs.countP (· ∉ taken ++ [next]) + needs.count next := by
    induction needs with
    | nil => rfl
    | cons need rest induction =>
        rw [List.countP_cons, List.countP_cons, List.count_cons, induction]
        by_cases same : need = next
        · subst same
          simp [fresh]
          omega
        · simp [same]
          omega
  unfold openNeeds
  rw [split (graph node), Nat.add_sub_cancel]

/-- A state of the computation after the given nodes were taken. -/
structure Waiting.Tracks (graph : Digraph size) (taken : List (Fin size))
    (waiting : Waiting size) : Prop where
  sorted : waiting.ready.Pairwise (· < ·)
  ready : ∀ node, node ∈ waiting.ready ↔ graph.Available taken node
  pending : ∀ node, waiting.pending.get node = graph.openNeeds taken node
  closed : ∀ node ∈ taken, graph.openNeeds taken node = 0

theorem Waiting.tracks_start (graph : Digraph size) :
    Waiting.Tracks graph [] (Waiting.start graph) where
  sorted := (List.pairwise_lt_finRange size).sublist List.filter_sublist
  ready node := by simp [Waiting.start, Available, List.eq_nil_iff_forall_not_mem]
  pending node := by simp [Waiting.start, openNeeds]
  closed node member := by simp at member

/-- One round: the first ready node is taken and its dependents are released. -/
theorem Waiting.Tracks.take {waiting : Waiting size} (tracks : waiting.Tracks graph taken)
    {next : Fin size} {rest : List (Fin size)} (first : waiting.ready = next :: rest) :
    Waiting.Tracks graph (taken ++ [next])
      ((graph.dependents.get next).foldl Waiting.release { waiting with ready := rest }) := by
  have available : graph.Available taken next :=
    (tracks.ready next).mp (first ▸ List.mem_cons_self)
  have sorted := List.pairwise_cons.mp (first ▸ tracks.sorted)
  have tidy : Waiting.Tidy { waiting with ready := rest } := by
    refine ⟨sorted.2, ?_⟩
    intro node member
    have also := (tracks.ready node).mp (first ▸ List.mem_cons_of_mem next member)
    exact (tracks.pending node).trans ((available_iff graph taken node).mp also).2
  have closed : ∀ node ∈ taken ++ [next], graph.openNeeds taken node = 0 := by
    intro node member
    rcases List.mem_append.mp member with earlier | last
    · exact tracks.closed node earlier
    · rw [List.mem_singleton.mp last]
      exact ((available_iff graph taken next).mp available).2
  refine ⟨(tidy.release_all _).sorted, ?_, ?_, ?_⟩
  · intro node
    have others : node ∈ rest ↔ node ∉ taken ++ [next] ∧ graph.openNeeds taken node = 0 := by
      have listed := tracks.ready node
      rw [first, List.mem_cons, available_iff] at listed
      rw [List.mem_append, List.mem_singleton, not_or]
      constructor
      · intro later
        exact ⟨⟨(listed.mp (.inr later)).1, (sorted.1 node later).ne'⟩, (listed.mp (.inr later)).2⟩
      · rintro ⟨⟨fresh, differ⟩, idle⟩
        exact (listed.mpr ⟨fresh, idle⟩).resolve_left differ
    rw [Waiting.mem_ready_release_all, count_dependents, available_iff, others,
      open_needs_take available.1]
    simp only [tracks.pending node]
    by_cases member : node ∈ taken ++ [next]
    · simp [member, closed node member]
    · simp only [member, not_false_eq_true, true_and]
      omega
  · intro node
    rw [Waiting.pending_release_all, count_dependents, open_needs_take available.1]
    exact congrArg (· - _) (tracks.pending node)
  · intro node member
    rw [open_needs_take available.1, closed node member, Nat.zero_sub]

theorem perm_fin_range {nodes : List (Fin size)} (nodup : nodes.Nodup)
    (full : size ≤ nodes.length) : nodes.Perm (List.finRange size) := by
  apply (List.subperm_of_subset nodup fun node _ => List.mem_finRange node).perm_of_length_le
  simpa using full

/-- With enough rounds for the nodes that are left, the nodes taken are the greedy ones. -/
theorem greedy_take_ready (rounds : Nat) {waiting : Waiting size}
    (tracks : waiting.Tracks graph taken) (nodup : taken.Nodup)
    (enough : size ≤ rounds + taken.length) :
    Greedy graph taken (takeReady graph.dependents rounds waiting) := by
  induction rounds generalizing taken waiting with
  | zero =>
      have full := perm_fin_range nodup (by simpa using enough)
      exact .done fun node available => available.1 (full.mem_iff.mpr (List.mem_finRange node))
  | succ rounds induction =>
      rw [takeReady]
      split
      · next empty =>
          apply Greedy.done
          intro node available
          have member := (tracks.ready node).mpr available
          rw [empty] at member
          cases member
      · next next rest first =>
          have available := (tracks.ready next).mp (first ▸ List.mem_cons_self)
          have sorted := List.pairwise_cons.mp (first ▸ tracks.sorted)
          refine .take available ?_ (induction (tracks.take first) ?_ ?_)
          · intro other also
            have member := (tracks.ready other).mpr also
            rw [first] at member
            rcases List.mem_cons.mp member with rfl | later
            · exact le_refl _
            · exact (sorted.1 other later).le
          · exact available.nodup_snoc nodup
          · simp only [List.length_append, List.length_singleton]
            omega

theorem greedy_order (graph : Digraph size) : Greedy graph [] graph.order :=
  greedy_take_ready size (Waiting.tracks_start graph) List.nodup_nil (Nat.le_add_right _ _)

/-! What follows for the computed order. -/

theorem order_ordered (graph : Digraph size) : graph.Ordered graph.order := by
  simpa using graph.greedy_order.ordered graph.ordered_nil

theorem order_nodup (graph : Digraph size) : graph.order.Nodup := by
  simpa using graph.greedy_order.nodup List.nodup_nil

theorem order_perm_of_acyclic (acyclic : graph.Acyclic) :
    graph.order.Perm (List.finRange size) := by
  apply (List.perm_ext_iff_of_nodup graph.order_nodup (List.nodup_finRange size)).mpr
  intro node
  have member : node ∈ graph.order := by simpa using graph.greedy_order.complete acyclic node
  exact ⟨fun _ => List.mem_finRange node, fun _ => member⟩

/-- The order is complete exactly for graphs without cycles. -/
theorem length_order_eq_iff (graph : Digraph size) : graph.order.length = size ↔ graph.Acyclic := by
  constructor
  · intro full
    have perm := perm_fin_range graph.order_nodup full.ge
    exact acyclic_of_ordered graph.order_ordered fun node =>
      perm.mem_iff.mpr (List.mem_finRange node)
  · intro acyclic
    simpa using (order_perm_of_acyclic acyclic).length_eq

theorem order_least {other : List (Fin size)} (ordered : graph.Ordered other)
    (perm : other.Perm (List.finRange size)) :
    graph.order = other ∨ List.Lex (· < ·) graph.order other := by
  refine graph.greedy_order.least (by simpa using ordered) ?_ fun node => ?_
  · simpa using perm.nodup_iff.mpr (List.nodup_finRange size)
  · simpa using perm.mem_iff.mpr (List.mem_finRange node)

end FortranDeps.Build.Digraph

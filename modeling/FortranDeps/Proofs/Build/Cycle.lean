import FortranDeps.Proofs.Build.Schedule

/-!
The depth-first search for a cycle misses none. A search that ends without a cycle has met
its nodes in an order of completion in which each comes after all it needs, so a search
over all nodes shows that there is no cycle. What it reports is a cycle: each node on the
stack is needed by the one below it, so the stack down to a node that is needed again leads
from this node back to it.
-/

namespace FortranDeps.Build.Digraph

variable {size : Nat} {graph : Digraph size}

/-- What is left to do on a stack of frames, the innermost first: a need of a node on the
stack is complete, or not looked at yet, or the node of the frame above it. -/
def Unfinished (graph : Digraph size) (complete : List (Fin size)) :
    (child : Option (Fin size)) → List (Frame size) → Prop
  | _, [] => True
  | child, frame :: outer =>
      (∀ need ∈ graph frame.node, need ∈ complete ∨ need ∈ frame.rest ∨ child = some need) ∧
        Unfinished graph complete (some frame.node) outer

theorem Unfinished.mono {complete more : List (Fin size)} {child later : Option (Fin size)}
    {frames : List (Frame size)} (unfinished : Unfinished graph complete child frames)
    (subset : complete ⊆ more)
    (same : ∀ need, child = some need → need ∈ more ∨ later = some need) :
    Unfinished graph more later frames := by
  induction frames generalizing child later with
  | nil => trivial
  | cons frame outer induction =>
      constructor
      · intro need needed
        rcases unfinished.1 need needed with done | waiting | current
        · exact .inl (subset done)
        · exact .inr (.inl waiting)
        · exact (same need current).imp_right .inr
      · apply induction unfinished.2
        intro need equal
        exact .inr equal

/-- A state of the search: the nodes met are those that are complete and those on the
stack. -/
structure Searching (graph : Digraph size) (met : Marks size) (complete : List (Fin size))
    (frames : List (Frame size)) : Prop where
  met_iff : ∀ node, met.has node = true ↔ node ∈ complete ∨ node ∈ frames.map Frame.node
  ordered : graph.Ordered complete
  unfinished : Unfinished graph complete none frames

namespace Searching

variable {met final : Marks size} {complete : List (Fin size)} {outer : List (Frame size)}
  {node need : Fin size} {rest : List (Fin size)}

/-- A frame without needs left is dropped, and its node is complete. -/
theorem finish (searching : Searching graph met complete (⟨node, []⟩ :: outer)) :
    Searching graph met (complete ++ [node]) outer := by
  constructor
  · intro other
    rw [searching.met_iff other, List.map_cons, List.mem_cons, List.mem_append,
      List.mem_singleton, or_assoc]
  · apply searching.ordered.snoc
    intro need needed
    rcases searching.unfinished.1 need needed with done | waiting | current
    · exact done
    · cases waiting
    · cases current
  · apply searching.unfinished.2.mono (List.subset_append_left _ _)
    intro other same
    cases same
    left
    exact List.mem_append_right _ (List.mem_singleton_self _)

/-- A need that was not met gets a frame of its own. -/
theorem enter (searching : Searching graph met complete (⟨node, need :: rest⟩ :: outer)) :
    Searching graph (met.add need) complete (⟨need, graph need⟩ :: ⟨node, rest⟩ :: outer) := by
  refine ⟨?_, searching.ordered, ?_, ?_, searching.unfinished.2⟩
  · intro other
    rw [Marks.has_add, Bool.or_eq_true, decide_eq_true_eq, searching.met_iff other]
    simp only [List.map_cons, List.mem_cons, eq_comm (a := other)]
    tauto
  · intro other needed
    exact .inr (.inl needed)
  · intro other needed
    rcases searching.unfinished.1 other needed with done | waiting | current
    · exact .inl done
    · rcases List.mem_cons.mp waiting with rfl | later
      · exact .inr (.inr rfl)
      · exact .inr (.inl later)
    · cases current

/-- A need that was met and is not on the stack is complete. -/
theorem skip (searching : Searching graph met complete (⟨node, need :: rest⟩ :: outer))
    (known : met.has need = true) (offStack : need ∉ node :: outer.map Frame.node) :
    Searching graph met complete (⟨node, rest⟩ :: outer) := by
  have done : need ∈ complete := ((searching.met_iff need).mp known).resolve_right offStack
  refine ⟨searching.met_iff, searching.ordered, ?_, searching.unfinished.2⟩
  intro other needed
  rcases searching.unfinished.1 other needed with complete | waiting | current
  · exact .inl complete
  · rcases List.mem_cons.mp waiting with rfl | later
    · exact .inl done
    · exact .inr (.inl later)
  · cases current

theorem root (searching : Searching graph met complete []) (node : Fin size) :
    Searching graph (met.add node) complete [⟨node, graph node⟩] := by
  refine ⟨?_, searching.ordered, ?_, trivial⟩
  · intro other
    rw [Marks.has_add, Bool.or_eq_true, decide_eq_true_eq, searching.met_iff other, eq_comm]
    simp only [List.map_nil, List.map_cons, List.mem_singleton, List.not_mem_nil, or_false]
    exact or_comm
  · intro need needed
    exact .inr (.inl needed)

/-- A search that ends without a cycle completes all nodes that it has met. -/
theorem of_search {frames : List (Frame size)} (searching : Searching graph met complete frames)
    (found : search graph met frames = .ok final) :
    (∃ all, Searching graph final all []) ∧
      ∀ node, met.has node = true → final.has node = true := by
  fun_induction search graph met frames generalizing complete with
  | case1 met =>
      cases found
      exact ⟨⟨complete, searching⟩, fun _ known => known⟩
  | case2 met node outer induction => exact induction searching.finish found
  | case3 met node need rest outer fresh induction =>
      obtain ⟨ended, kept⟩ := induction searching.enter found
      refine ⟨ended, fun other known => kept other ?_⟩
      rw [Marks.has_add, known, Bool.or_true]
  | case4 met node need rest outer known onStack => cases found
  | case5 met node need rest outer known offStack induction =>
      refine induction (searching.skip (by simpa using known) fun member => offStack ?_) found
      rcases List.mem_cons.mp member with same | inOuter
      · exact .inl same.symm
      · obtain ⟨frame, inside, same⟩ := List.mem_map.mp inOuter
        exact .inr (List.any_eq_true.mpr ⟨frame, inside, by simp [same]⟩)

end Searching

/-- The search from a root that may have been met before. -/
def visit (graph : Digraph size) (met : Marks size) (root : Fin size) :
    Except (List (Fin size)) (Marks size) :=
  if met.has root then .ok met else search graph (met.add root) [⟨root, graph root⟩]

theorem Searching.visit {met final : Marks size} {complete : List (Fin size)}
    (searching : Searching graph met complete []) {root : Fin size}
    (found : graph.visit met root = .ok final) :
    (∃ all, Searching graph final all []) ∧
      (∀ node, met.has node = true → final.has node = true) ∧ final.has root = true := by
  unfold Digraph.visit at found
  split at found
  · next known =>
      cases found
      exact ⟨⟨complete, searching⟩, fun _ same => same, known⟩
  · obtain ⟨ended, kept⟩ := (searching.root root).of_search found
    refine ⟨ended, fun node same => kept node ?_, kept root ?_⟩
    · rw [Marks.has_add, same, Bool.or_true]
    · rw [Marks.has_add, decide_eq_true rfl, Bool.true_or]

theorem Searching.of_roots (roots : List (Fin size)) {met final : Marks size}
    {complete : List (Fin size)} (searching : Searching graph met complete [])
    (found : roots.foldlM graph.visit met = .ok final) :
    (∃ all, Searching graph final all []) ∧
      (∀ node, met.has node = true → final.has node = true) ∧
        ∀ root ∈ roots, final.has root = true := by
  induction roots generalizing met complete with
  | nil =>
      cases found
      exact ⟨⟨complete, searching⟩, fun _ known => known, by simp⟩
  | cons root rest induction =>
      rw [List.foldlM_cons] at found
      cases outcome : graph.visit met root with
      | error cycle => rw [outcome] at found; cases found
      | ok next =>
          rw [outcome] at found
          obtain ⟨⟨more, ended⟩, kept, known⟩ := searching.visit outcome
          obtain ⟨all, later, others⟩ := induction ended found
          refine ⟨all, ?_, ?_⟩
          · intro node same
            exact later node (kept node same)
          · intro node member
            rcases List.mem_cons.mp member with rfl | inRest
            · exact later node known
            · exact others node inRest

theorem Searching.start (graph : Digraph size) : Searching graph Marks.none [] [] := by
  refine ⟨fun node => ?_, graph.ordered_nil, trivial⟩
  simp [Marks.none, Marks.has]

theorem acyclic_of_find_cycle_eq_none {graph : Digraph size} (missing : graph.findCycle = none) :
    graph.Acyclic := by
  unfold findCycle at missing
  simp only at missing
  split at missing
  · next final outcome =>
      obtain ⟨⟨all, ended⟩, -, met⟩ := (Searching.start graph).of_roots _ outcome
      apply acyclic_of_ordered ended.ordered
      intro node
      simpa using (ended.met_iff node).mp (met node (List.mem_finRange node))
  · cases missing

/-! Reported cycles. -/

/-- A way along needs from a node back to it, on which no other node is repeated. -/
structure IsCycle (graph : Digraph size) (nodes : List (Fin size)) : Prop where
  chain : nodes.IsChain graph.Needs
  closed : ∃ node way, nodes = node :: (way ++ [node]) ∧ (node :: way).Nodup

theorem trans_gen_of_chain {node last : Fin size} {way : List (Fin size)}
    (chain : (node :: (way ++ [last])).IsChain graph.Needs) :
    Relation.TransGen graph.Needs node last := by
  induction way generalizing node with
  | nil => exact .single (List.isChain_cons_cons.mp chain).1
  | cons next rest induction =>
      obtain ⟨first, later⟩ := List.isChain_cons_cons.mp chain
      exact .head first (induction later)

theorem IsCycle.not_acyclic {nodes : List (Fin size)} (cycle : IsCycle graph nodes) :
    ¬graph.Acyclic := by
  intro acyclic
  obtain ⟨node, way, rfl, -⟩ := cycle.closed
  exact acyclic node (trans_gen_of_chain cycle.chain)

/-- The stack of a search, the innermost frame first: no node stands on it twice, each is needed
by the one below it, and what is left to look at is needed. -/
structure Stacked (graph : Digraph size) (met : Marks size) (frames : List (Frame size)) :
    Prop where
  nodup : (frames.map Frame.node).Nodup
  chain : (frames.map Frame.node).IsChain fun inner outer => graph.Needs outer inner
  met : ∀ frame ∈ frames, met.has frame.node = true
  needed : ∀ frame ∈ frames, ∀ need ∈ frame.rest, need ∈ graph frame.node

namespace Stacked

variable {met : Marks size} {outer : List (Frame size)} {node need : Fin size}
  {rest : List (Fin size)}

theorem finish (stacked : Stacked graph met (⟨node, rest⟩ :: outer)) :
    Stacked graph met outer := by
  refine ⟨(List.nodup_cons.mp stacked.nodup).2, stacked.chain.tail, ?_, ?_⟩
  · intro frame member
    exact stacked.met frame (List.mem_cons_of_mem _ member)
  · intro frame member
    exact stacked.needed frame (List.mem_cons_of_mem _ member)

theorem skip (stacked : Stacked graph met (⟨node, need :: rest⟩ :: outer)) :
    Stacked graph met (⟨node, rest⟩ :: outer) := by
  refine ⟨stacked.nodup, stacked.chain, ?_, ?_⟩
  · intro frame member
    rcases List.mem_cons.mp member with rfl | below
    · exact stacked.met ⟨node, need :: rest⟩ List.mem_cons_self
    · exact stacked.met frame (List.mem_cons_of_mem _ below)
  · intro frame member other left
    rcases List.mem_cons.mp member with rfl | below
    · exact stacked.needed ⟨node, need :: rest⟩ List.mem_cons_self other
        (List.mem_cons_of_mem need left)
    · exact stacked.needed frame (List.mem_cons_of_mem _ below) other left

theorem direct (stacked : Stacked graph met (⟨node, need :: rest⟩ :: outer)) :
    need ∈ graph node :=
  stacked.needed _ List.mem_cons_self need List.mem_cons_self

theorem enter (stacked : Stacked graph met (⟨node, need :: rest⟩ :: outer))
    (fresh : met.has need = false) :
    Stacked graph (met.add need) (⟨need, graph need⟩ :: ⟨node, rest⟩ :: outer) := by
  have below := stacked.skip
  refine ⟨?_, ?_, ?_, ?_⟩
  · refine List.nodup_cons.mpr ⟨?_, below.nodup⟩
    intro member
    obtain ⟨frame, inside, same⟩ := List.mem_map.mp member
    have known := below.met frame inside
    rw [same, fresh] at known
    cases known
  · exact List.isChain_cons_cons.mpr ⟨stacked.direct, below.chain⟩
  · intro frame member
    rw [Marks.has_add, Bool.or_eq_true, decide_eq_true_eq]
    rcases List.mem_cons.mp member with rfl | inside
    · exact .inl rfl
    · exact .inr (below.met frame inside)
  · intro frame member other left
    rcases List.mem_cons.mp member with rfl | inside
    · exact left
    · exact below.needed frame inside other left

theorem root (graph : Digraph size) (met : Marks size) (node : Fin size) :
    Stacked graph (met.add node) [⟨node, graph node⟩] := by
  refine ⟨List.nodup_singleton _, List.isChain_singleton _, ?_, ?_⟩
  · intro frame member
    rw [List.mem_singleton.mp member, Marks.has_add, decide_eq_true rfl, Bool.true_or]
  · intro frame member other left
    rw [List.mem_singleton.mp member] at left ⊢
    exact left

/-- A need of the innermost node that stands on the stack closes a cycle. -/
theorem is_cycle_close_cycle (stacked : Stacked graph met (⟨node, rest⟩ :: outer))
    (direct : need ∈ graph node) (onStack : need ∈ node :: outer.map Frame.node) :
    IsCycle graph (closeCycle (⟨node, rest⟩ :: outer) need) := by
  have nodup := stacked.nodup
  have chain := stacked.chain
  unfold closeCycle
  rw [List.map_cons] at nodup chain ⊢
  -- The stack is cut at the node that closes the cycle.
  obtain ⟨above, below, split, fresh⟩ := List.eq_append_cons_of_mem onStack
  have taken : (node :: outer.map Frame.node).takeWhile (· ≠ need) = above := by
    have others : ∀ other ∈ above, decide (other ≠ need) = true := by
      intro other member
      rw [decide_eq_true_eq]
      rintro rfl
      exact fresh member
    rw [split, List.takeWhile_append_of_pos others, List.takeWhile_cons_of_neg (by simp),
      List.append_nil]
  have front : above ++ [need] <+: node :: outer.map Frame.node := by
    rw [split]
    exact ⟨below, by simp⟩
  have upward : (need :: above.reverse).IsChain graph.Needs := by
    have part := List.IsChain.prefix chain front
    have reversed := List.isChain_reverse.mpr part
    rwa [List.reverse_append] at reversed
  have top : (need :: above.reverse).getLast? = some node := by
    obtain ⟨more, whole⟩ := front
    have first : (above ++ [need]).head? = some node := by
      have same := congrArg List.head? whole
      rwa [List.head?_append_of_ne_nil _ (by simp), List.head?_cons] at same
    rw [← List.getLast?_reverse, List.reverse_append] at first
    exact first
  rw [taken]
  refine ⟨?_, need, above.reverse, rfl, ?_⟩
  · rw [← List.cons_append]
    refine List.isChain_append.mpr ⟨upward, List.isChain_singleton _, ?_⟩
    intro last isLast next isNext
    rw [top] at isLast
    cases isLast
    cases isNext
    exact direct
  · rw [List.nodup_cons, List.mem_reverse, List.nodup_reverse]
    rw [split] at nodup
    exact ⟨fresh, (List.nodup_append'.mp nodup).1⟩

theorem of_search {frames : List (Frame size)} {cycle : List (Fin size)}
    (stacked : Stacked graph met frames) (found : search graph met frames = .error cycle) :
    IsCycle graph cycle := by
  fun_induction search graph met frames with
  | case1 met => cases found
  | case2 met node outer induction => exact induction stacked.finish found
  | case3 met node need rest outer fresh induction => exact induction (stacked.enter fresh) found
  | case4 met node need rest outer known onStack =>
      cases found
      apply stacked.skip.is_cycle_close_cycle stacked.direct
      rcases onStack with rfl | below
      · exact List.mem_cons_self
      · obtain ⟨frame, inside, same⟩ := List.any_eq_true.mp below
        rw [← eq_of_beq same]
        exact List.mem_cons_of_mem node (List.mem_map_of_mem inside)
  | case5 met node need rest outer known offStack induction => exact induction stacked.skip found

end Stacked

theorem is_cycle_of_visit {met : Marks size} {root : Fin size} {cycle : List (Fin size)}
    (found : graph.visit met root = .error cycle) : IsCycle graph cycle := by
  unfold visit at found
  split at found
  · cases found
  · exact (Stacked.root graph met root).of_search found

theorem is_cycle_of_find_cycle {cycle : List (Fin size)} (found : graph.findCycle = some cycle) :
    IsCycle graph cycle := by
  have roots (nodes : List (Fin size)) (met : Marks size)
      (failed : nodes.foldlM graph.visit met = .error cycle) : IsCycle graph cycle := by
    induction nodes generalizing met with
    | nil => cases failed
    | cons root rest induction =>
        rw [List.foldlM_cons] at failed
        cases outcome : graph.visit met root with
        | error cycle =>
            rw [outcome] at failed
            cases failed
            exact is_cycle_of_visit outcome
        | ok next =>
            rw [outcome] at failed
            exact induction next failed
  unfold findCycle at found
  simp only at found
  split at found
  · cases found
  · next cycle outcome =>
      cases found
      exact roots _ _ outcome

/-- The search decides whether there is a cycle. -/
theorem find_cycle_eq_none_iff (graph : Digraph size) : graph.findCycle = none ↔ graph.Acyclic := by
  constructor
  · exact acyclic_of_find_cycle_eq_none
  · intro acyclic
    by_contra found
    obtain ⟨cycle, same⟩ := Option.ne_none_iff_exists'.mp found
    exact (is_cycle_of_find_cycle same).not_acyclic acyclic

end FortranDeps.Build.Digraph

import FortranDeps.Proofs.Build.CompileOrder
import FortranDeps.Proofs.Loop

/-!
The search for a cycle as a loop. Besides the nodes that were met, the loop marks those that stand
on its stack, and a need with such a mark closes a cycle. The marks are set when a node goes on the
stack and taken back when it leaves, so at every turn they are exactly the nodes of the stack, and
the place at which the cycle begins is always found. The loop ends with the cycle that the search
over the stack alone finds.
-/

namespace FortranDeps.Build

open Relation

variable {size : Nat}

namespace Marks

def remove (marks : Marks size) (node : Fin size) : Marks size :=
  marks.set node.val false node.isLt

theorem has_remove (marks : Marks size) (node other : Fin size) :
    (marks.remove node).has other = (decide (node ≠ other) && marks.has other) := by
  unfold remove has
  rw [Vector.getElem_set]
  by_cases same : node = other
  · simp [same]
  · have differ : node.val ≠ other.val := fun equal => same (Fin.ext equal)
    simp [same, differ]

end Marks

namespace Digraph

/-- A node on the stack with the position of the need that is looked at next. -/
structure Visit (size : Nat) where
  node : Fin size
  next : Nat

/-- The state of the loop, with the innermost visit first. -/
structure Tour (size : Nat) where
  roots : List (Fin size)
  met : Marks size
  onStack : Marks size
  visits : List (Visit size)

namespace Tour

/-- The state in which the loop starts. -/
def start : Tour size := ⟨List.finRange size, Marks.none, Marks.none, []⟩

def nodes (tour : Tour size) : List (Fin size) := tour.visits.map Visit.node

/-- The nodes on the stack, the outermost first. -/
def stack (tour : Tour size) : List (Fin size) := tour.nodes.reverse

/-- The stack from a node on, and the node once more. A node that does not stand on the stack would
give the whole stack. -/
def cycle (tour : Tour size) (node : Fin size) : List (Fin size) :=
  tour.stack.drop ((tour.stack.idxOf? node).getD 0) ++ [node]

end Tour

variable (graph : Digraph size)

/-- One turn of the loop: its result at the end, and otherwise the state to go on with. -/
def turn (tour : Tour size) : Option (List (Fin size)) ⊕ Tour size :=
  match tour.visits with
  | [] =>
      match tour.roots with
      | [] => .inl none
      | root :: roots =>
          if tour.met.has root then .inr { tour with roots := roots }
          else .inr ⟨roots, tour.met.add root, tour.onStack.add root, [⟨root, 0⟩]⟩
  | visit :: outer =>
      match (graph visit.node)[visit.next]? with
      | none => .inr { tour with onStack := tour.onStack.remove visit.node, visits := outer }
      | some need =>
          let visits := ⟨visit.node, visit.next + 1⟩ :: outer
          if tour.onStack.has need then .inl (some (Tour.cycle { tour with visits := visits } need))
          else if tour.met.has need then .inr { tour with visits := visits }
          else
            .inr ⟨tour.roots, tour.met.add need, tour.onStack.add need, ⟨need, 0⟩ :: visits⟩

/-- The ways in which the loop goes on. -/
inductive Move : Tour size → Tour size → Prop where
  | passing {root : Fin size} {roots : List (Fin size)} {met onStack : Marks size}
      (known : met.has root = true) :
      Move ⟨root :: roots, met, onStack, []⟩ ⟨roots, met, onStack, []⟩
  | beginning {root : Fin size} {roots : List (Fin size)} {met onStack : Marks size}
      (fresh : met.has root = false) :
      Move ⟨root :: roots, met, onStack, []⟩
        ⟨roots, met.add root, onStack.add root, [⟨root, 0⟩]⟩
  | leaving {visit : Visit size} {outer : List (Visit size)} {roots : List (Fin size)}
      {met onStack : Marks size} (finished : (graph visit.node)[visit.next]? = none) :
      Move ⟨roots, met, onStack, visit :: outer⟩ ⟨roots, met, onStack.remove visit.node, outer⟩
  | skipping {visit : Visit size} {outer : List (Visit size)} {roots : List (Fin size)}
      {met onStack : Marks size} {need : Fin size}
      (looked : (graph visit.node)[visit.next]? = some need) (off : onStack.has need = false)
      (known : met.has need = true) :
      Move ⟨roots, met, onStack, visit :: outer⟩
        ⟨roots, met, onStack, ⟨visit.node, visit.next + 1⟩ :: outer⟩
  | entering {visit : Visit size} {outer : List (Visit size)} {roots : List (Fin size)}
      {met onStack : Marks size} {need : Fin size}
      (looked : (graph visit.node)[visit.next]? = some need) (off : onStack.has need = false)
      (fresh : met.has need = false) :
      Move ⟨roots, met, onStack, visit :: outer⟩
        ⟨roots, met.add need, onStack.add need,
          ⟨need, 0⟩ :: ⟨visit.node, visit.next + 1⟩ :: outer⟩

/-- The ways in which the loop ends. -/
inductive Stop : Tour size → Option (List (Fin size)) → Prop where
  | exhausted {met onStack : Marks size} : Stop ⟨[], met, onStack, []⟩ none
  | closed {visit : Visit size} {outer : List (Visit size)} {roots : List (Fin size)}
      {met onStack : Marks size} {need : Fin size}
      (looked : (graph visit.node)[visit.next]? = some need) (on : onStack.has need = true) :
      Stop ⟨roots, met, onStack, visit :: outer⟩
        (some (Tour.cycle ⟨roots, met, onStack, ⟨visit.node, visit.next + 1⟩ :: outer⟩ need))

variable {graph}

theorem move_of_turns {earlier later : Tour size} (turns : Loop.Turns graph.turn earlier later) :
    graph.Move earlier later := by
  obtain ⟨roots, met, onStack, visits⟩ := earlier
  unfold Loop.Turns turn at turns
  cases visits with
  | nil =>
      cases roots with
      | nil => cases turns
      | cons root roots =>
          simp only at turns
          split at turns
          · next known =>
              cases turns
              exact .passing known
          · next fresh =>
              cases turns
              exact .beginning (Bool.eq_false_iff.mpr fresh)
  | cons visit outer =>
      simp only at turns
      split at turns
      · next finished =>
          cases turns
          exact .leaving finished
      · next need looked =>
          split at turns
          · cases turns
          · next off =>
              split at turns
              · next known =>
                  cases turns
                  exact .skipping looked (Bool.eq_false_iff.mpr off) known
              · next fresh =>
                  cases turns
                  exact .entering looked (Bool.eq_false_iff.mpr off) (Bool.eq_false_iff.mpr fresh)

theorem stop_of_turn {tour : Tour size} {result : Option (List (Fin size))}
    (done : graph.turn tour = .inl result) : graph.Stop tour result := by
  obtain ⟨roots, met, onStack, visits⟩ := tour
  unfold turn at done
  cases visits with
  | nil =>
      cases roots with
      | nil =>
          cases done
          exact .exhausted
      | cons root roots =>
          simp only at done
          split at done
          · cases done
          · cases done
  | cons visit outer =>
      simp only at done
      split at done
      · cases done
      · next need looked =>
          split at done
          · next on =>
              cases done
              exact .closed looked on
          · split at done
            · cases done
            · cases done

/-! The marks of the stack. -/

/-- The marks of the stack are its nodes, each of which stands on it once and was met. -/
structure Tour.Marked (tour : Tour size) : Prop where
  nodup : tour.nodes.Nodup
  onStack_iff : ∀ node, tour.onStack.has node = true ↔ node ∈ tour.nodes
  met : ∀ node ∈ tour.nodes, tour.met.has node = true

theorem Tour.marked_start : (start : Tour size).Marked := by
  refine ⟨List.nodup_nil, ?_, ?_⟩
  · intro node
    simp [start, nodes, Marks.none, Marks.has]
  · intro node member
    cases member

namespace Tour.Marked

variable {roots : List (Fin size)} {met onStack : Marks size} {visit : Visit size}
  {outer : List (Visit size)} {node : Fin size}

/-- A node that was not met goes on the stack. -/
theorem push {visits : List (Visit size)} (marked : (Tour.mk roots met onStack visits).Marked)
    (fresh : met.has node = false) (later : List (Fin size)) (next : Nat) :
    (Tour.mk later (met.add node) (onStack.add node) (⟨node, next⟩ :: visits)).Marked := by
  refine ⟨List.nodup_cons.mpr ⟨?_, marked.nodup⟩, ?_, ?_⟩
  · intro member
    have known := marked.met node member
    rw [fresh] at known
    cases known
  · intro other
    have before := marked.onStack_iff other
    simp only [nodes, List.map_cons, List.mem_cons] at before ⊢
    rw [Marks.has_add, Bool.or_eq_true, decide_eq_true_eq, before, eq_comm]
  · intro other member
    rw [Marks.has_add, Bool.or_eq_true, decide_eq_true_eq]
    rcases List.mem_cons.mp member with rfl | below
    · exact .inl rfl
    · exact .inr (marked.met other below)

theorem pop (marked : (Tour.mk roots met onStack (visit :: outer)).Marked) :
    (Tour.mk roots met (onStack.remove visit.node) outer).Marked := by
  obtain ⟨apart, nodup⟩ := List.nodup_cons.mp marked.nodup
  refine ⟨nodup, ?_, ?_⟩
  · intro other
    have before := marked.onStack_iff other
    simp only [nodes, List.map_cons, List.mem_cons] at before apart ⊢
    rw [Marks.has_remove, Bool.and_eq_true, decide_eq_true_eq, before]
    constructor
    · rintro ⟨differ, here | below⟩
      · exact absurd here.symm differ
      · exact below
    · intro below
      refine ⟨?_, .inr below⟩
      rintro rfl
      exact apart below
  · intro other below
    exact marked.met other (List.mem_cons_of_mem _ below)

/-- The position of the next need changes no mark. -/
theorem advance (marked : (Tour.mk roots met onStack (visit :: outer)).Marked) (next : Nat) :
    (Tour.mk roots met onStack (⟨visit.node, next⟩ :: outer)).Marked :=
  ⟨marked.nodup, marked.onStack_iff, marked.met⟩

theorem turns {earlier later : Tour size} (marked : earlier.Marked)
    (turns : Loop.Turns graph.turn earlier later) : later.Marked := by
  cases move_of_turns turns with
  | passing known => exact ⟨marked.nodup, marked.onStack_iff, marked.met⟩
  | beginning fresh => exact marked.push fresh _ 0
  | leaving finished => exact marked.pop
  | skipping looked off known => exact marked.advance _
  | entering looked off fresh => exact (marked.advance _).push fresh _ 0

end Tour.Marked

/-- In every state of the loop, a node with a mark has a place on the stack. -/
theorem placed_of_reaches {tour : Tour size} (reaches : Loop.Reaches graph.turn .start tour)
    (node : Fin size) : tour.onStack.has node = true ↔ (tour.stack.idxOf? node).isSome = true := by
  have marked : tour.Marked :=
    reaches.keeps (fun _ _ marked turns => marked.turns turns) Tour.marked_start
  rw [marked.onStack_iff, List.isSome_idxOf?, Tour.stack, List.mem_reverse]

/-! The loop ends. -/

/-- What is left to do: the roots that were not tried, the nodes that were not met, and the needs
that were not looked at. -/
def Visit.frame (graph : Digraph size) (visit : Visit size) : Frame size :=
  ⟨visit.node, (graph visit.node).drop visit.next⟩

def Tour.frames (graph : Digraph size) (tour : Tour size) : List (Frame size) :=
  tour.visits.map (Visit.frame graph)

def weight (graph : Digraph size) (tour : Tour size) : Nat × Nat × Nat :=
  (tour.roots.length, tour.met.missing, stackWork (tour.frames graph))

theorem frame_of_get_elem? {visit : Visit size} {need : Fin size}
    (looked : (graph visit.node)[visit.next]? = some need) :
    visit.frame graph = ⟨visit.node, need :: (graph visit.node).drop (visit.next + 1)⟩ := by
  obtain ⟨inside, rfl⟩ := List.getElem?_eq_some_iff.mp looked
  rw [Visit.frame, List.drop_eq_getElem_cons inside]

theorem frame_of_finished {visit : Visit size}
    (finished : (graph visit.node)[visit.next]? = none) : visit.frame graph = ⟨visit.node, []⟩ := by
  rw [Visit.frame, List.drop_eq_nil_of_le (List.getElem?_eq_none_iff.mp finished)]

theorem weight_turns {earlier later : Tour size} (turns : Loop.Turns graph.turn earlier later) :
    Prod.Lex (· < ·) (Prod.Lex (· < ·) (· < ·)) (graph.weight later) (graph.weight earlier) := by
  cases move_of_turns turns with
  | passing known => exact .left _ _ (Nat.lt_succ_self _)
  | beginning fresh => exact .left _ _ (Nat.lt_succ_self _)
  | leaving finished =>
      apply Prod.Lex.right
      apply Prod.Lex.right
      simp only [Tour.frames, List.map_cons, frame_of_finished finished, stackWork]
      omega
  | skipping looked off known =>
      apply Prod.Lex.right
      apply Prod.Lex.right
      simp only [Tour.frames, List.map_cons, frame_of_get_elem? looked, stackWork,
        List.length_cons]
      simp only [Visit.frame]
      omega
  | entering looked off fresh =>
      apply Prod.Lex.right
      exact .left _ _ (Marks.missing_add_lt fresh)

theorem turns_well_founded :
    WellFounded fun later earlier : Tour size => Loop.Turns graph.turn earlier later := by
  have lexicographic : WellFounded (Prod.Lex (· < ·) (Prod.Lex (· < ·) (· < ·)) :
      Nat × Nat × Nat → Nat × Nat × Nat → Prop) :=
    WellFounded.prod_lex Nat.lt_wfRel.wf (WellFounded.prod_lex Nat.lt_wfRel.wf Nat.lt_wfRel.wf)
  exact Subrelation.wf weight_turns (InvImage.wf graph.weight lexicographic)

/-! The loop ends with what the search finds. -/

/-- The outcome of the search from a state on. -/
def Tour.outcome (graph : Digraph size) (tour : Tour size) :
    Except (List (Fin size)) (Marks size) := do
  let met ← search graph tour.met (tour.frames graph)
  tour.roots.foldlM graph.visit met

theorem map_node_frames (tour : Tour size) :
    (tour.frames graph).map Frame.node = tour.nodes := by
  rw [Tour.frames, List.map_map]
  rfl

/-- The stack from the first place of a node on is the way on which the search finds its cycle. -/
theorem cycle_eq_close_cycle (graph : Digraph size) {tour : Tour size} (nodup : tour.nodes.Nodup)
    {need : Fin size} (on : need ∈ tour.nodes) :
    tour.cycle need = closeCycle (tour.frames graph) need := by
  obtain ⟨above, below, split, fresh⟩ := List.eq_append_cons_of_mem on
  have others : ∀ node ∈ above, decide (node ≠ need) = true := by
    intro node member
    rw [decide_eq_true_eq]
    rintro rfl
    exact fresh member
  have absent : need ∉ below := by
    rw [split] at nodup
    exact (List.nodup_cons.mp (List.nodup_append'.mp nodup).2.1).1
  have stack : tour.stack = below.reverse ++ need :: above.reverse := by
    rw [Tour.stack, split, List.reverse_append, List.reverse_cons, List.append_assoc]
    rfl
  have placed : tour.stack.idxOf? need = some below.reverse.length := by
    rw [stack, List.idxOf?_eq_some_iff]
    refine ⟨by simp, by simp, ?_⟩
    intro earlier before same
    rw [List.getElem_append_left before] at same
    apply absent
    rw [← List.mem_reverse, ← same]
    exact List.getElem_mem before
  unfold Tour.cycle closeCycle
  rw [map_node_frames, placed, Option.getD_some, stack, List.drop_left, split,
    List.takeWhile_append_of_pos others, List.takeWhile_cons_of_neg (by simp), List.append_nil]
  rfl

theorem on_stack_of_frames {node need : Fin size} {outer : List (Visit size)} :
    (node = need ∨ (outer.map (Visit.frame graph)).any (·.node == need) = true) ↔
      need ∈ node :: outer.map Visit.node := by
  rw [List.any_map, List.any_eq_true, List.mem_cons, List.mem_map]
  simp only [Function.comp_apply, Visit.frame, beq_iff_eq, eq_comm (a := node)]

theorem outcome_turns {earlier later : Tour size} (marked : earlier.Marked)
    (turns : Loop.Turns graph.turn earlier later) :
    later.outcome graph = earlier.outcome graph := by
  unfold Tour.outcome Tour.frames
  cases move_of_turns turns with
  | @passing root roots met onStack known =>
      have tried : graph.visit met root = .ok met := by simp [visit, known]
      simp only [List.map_nil, search, List.foldlM_cons, bind, Except.bind, tried]
  | @beginning root roots met onStack fresh =>
      have tried : graph.visit met root = search graph (met.add root) [⟨root, graph root⟩] := by
        simp [visit, fresh]
      simp only [List.map_nil, search, List.foldlM_cons, bind, Except.bind, tried]
      rfl
  | leaving finished => simp only [List.map_cons, frame_of_finished finished, search]
  | @skipping visit outer roots met onStack need looked off known =>
      have apart : ¬(visit.node = need ∨
          (outer.map (Visit.frame graph)).any (·.node == need) = true) := by
        rw [on_stack_of_frames]
        intro member
        rw [(marked.onStack_iff need).mpr member] at off
        cases off
      simp only [List.map_cons, frame_of_get_elem? looked, search, known, apart]
      rfl
  | entering looked off fresh =>
      simp only [List.map_cons, frame_of_get_elem? looked, search, fresh]
      rfl

/-- The cycle that the search finds from a state on, if any. -/
def Tour.result (graph : Digraph size) (tour : Tour size) : Option (List (Fin size)) :=
  match tour.outcome graph with
  | .ok _ => none
  | .error cycle => some cycle

theorem result_of_stop {tour : Tour size} (marked : tour.Marked)
    {result : Option (List (Fin size))} (stop : graph.Stop tour result) :
    result = tour.result graph := by
  unfold Tour.result Tour.outcome Tour.frames
  cases stop with
  | exhausted =>
      simp only [List.map_nil, search]
      rfl
  | @closed visit outer roots met onStack need looked on =>
      have member := (marked.onStack_iff need).mp on
      have known : met.has need = true := marked.met need member
      have standing : visit.node = need ∨
          (outer.map (Visit.frame graph)).any (·.node == need) = true :=
        on_stack_of_frames.mpr member
      have advanced := marked.advance (visit.next + 1)
      rw [cycle_eq_close_cycle graph advanced.nodup member]
      simp only [List.map_cons, frame_of_get_elem? looked, search, known, standing]
      rfl

/-- The loop over all nodes ends, and with nothing else than what the search finds. -/
theorem ends_iff (graph : Digraph size) (result : Option (List (Fin size))) :
    Loop.Ends graph.turn .start result ↔ result = graph.findCycle := by
  have whole : graph.findCycle = (Tour.start : Tour size).result graph := by
    unfold findCycle Tour.result Tour.outcome Tour.frames
    simp only [Tour.start, List.map_nil, search]
    rfl
  rw [whole]
  refine Loop.ends_iff Tour.Marked (Tour.result graph) turns_well_founded ?_ ?_
    Tour.marked_start result
  · intro earlier later marked turns
    refine ⟨marked.turns turns, ?_⟩
    rw [Tour.result, outcome_turns marked turns, Tour.result]
  · intro tour result marked done
    exact result_of_stop marked (stop_of_turn done)

end Digraph

namespace DependencyGraph

/-- A way along prerequisites from a file back to it, on which no other file is repeated. -/
structure IsCycle (graph : DependencyGraph) (files : List Path) : Prop where
  size : 2 ≤ files.length
  closed : files.head? = files.getLast?
  distinct : (files.dropLast.map Path.components).Nodup
  chain : files.IsChain graph.Needs

namespace WellFormed

variable {graph : DependencyGraph} (formed : graph.WellFormed)

include formed

theorem is_cycle_map_file_at {nodes : List (Fin graph.size)}
    (cycle : graph.toDigraph.IsCycle nodes) : graph.IsCycle (nodes.map graph.fileAt) := by
  obtain ⟨node, way, rfl, nodup⟩ := cycle.closed
  constructor
  · simp
  · rw [← List.cons_append, List.map_append, List.getLast?_append]
    rfl
  · rw [← List.cons_append, List.map_append, List.map_singleton, List.dropLast_concat, List.map_map]
    exact nodup.map formed.components_file_at_injective
  · rw [List.isChain_map]
    apply cycle.chain.imp
    intro first second needed
    exact (formed.needs_file_at first second).mpr needed

theorem check_acyclic_eq_ok_iff : graph.checkAcyclic = .ok () ↔ graph.Acyclic := by
  rcases formed.check_acyclic_cases with ⟨acyclic, passed⟩ | ⟨cyclic, files, failed⟩
  · exact iff_of_true passed acyclic
  · refine iff_of_false ?_ cyclic
    rw [failed]
    intro passed
    cases passed

theorem is_cycle_of_check_acyclic {diagnostic : Diagnostic}
    (failed : graph.checkAcyclic = .error diagnostic) :
    ∃ files, diagnostic = .dependencyCycle files ∧ graph.IsCycle files := by
  unfold checkAcyclic at failed
  split at failed
  · next nodes found =>
      cases failed
      exact ⟨_, rfl, formed.is_cycle_map_file_at (Digraph.is_cycle_of_find_cycle found)⟩
  · cases failed

end WellFormed

/-- The check of a graph that is built by adding files passes exactly if no file needs itself
directly or indirectly, and otherwise reports a way of prerequisites from a file back to it. Its
search, as a loop with marks for the nodes met and for those on the stack, never goes on for ever,
ends with nothing else than the cycle that the check reports, and in every state on the way there
each node that is marked has a place on the stack at which a cycle through it begins. -/
theorem cycle_check_exact (calls : List (Path × List Path)) :
    let graph := ofCalls calls
    (graph.checkAcyclic = .ok () ↔ ∀ file, ¬TransGen graph.Needs file file) ∧
    (∀ diagnostic, graph.checkAcyclic = .error diagnostic →
      ∃ files, diagnostic = .dependencyCycle files ∧ graph.IsCycle files) ∧
    WellFounded (fun later earlier => Loop.Turns graph.toDigraph.turn earlier later) ∧
    (∀ result, Loop.Ends graph.toDigraph.turn .start result ↔
      result = graph.toDigraph.findCycle) ∧
    ∀ tour, Loop.Reaches graph.toDigraph.turn .start tour →
      ∀ node, tour.onStack.has node = true ↔ (tour.stack.idxOf? node).isSome = true := by
  intro graph
  have formed : graph.WellFormed := well_formed_of_calls calls
  refine ⟨formed.check_acyclic_eq_ok_iff, ?_, Digraph.turns_well_founded,
    graph.toDigraph.ends_iff, ?_⟩
  · intro diagnostic failed
    exact formed.is_cycle_of_check_acyclic failed
  · intro tour reaches node
    exact Digraph.placed_of_reaches reaches node

end DependencyGraph

end FortranDeps.Build

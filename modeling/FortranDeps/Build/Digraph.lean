import FortranDeps.Counting

/-!
Finite directed graphs on positions, where each node lists the nodes it needs. Three
questions are answered: in which order the nodes can be taken so that each comes after
all it needs, which nodes lie on a cycle, and what a node needs directly or indirectly.
-/

namespace FortranDeps.Build

/-- For each node, the nodes it needs, repetitions allowed. -/
abbrev Digraph (size : Nat) := Fin size → List (Fin size)

variable {size : Nat}

/-- Nodes that a search has met. -/
abbrev Marks (size : Nat) := Vector Bool size

namespace Marks

def none : Marks size := Vector.replicate size false

def add (marks : Marks size) (node : Fin size) : Marks size := marks.set node.val true node.isLt

def has (marks : Marks size) (node : Fin size) : Bool := marks[node.val]

theorem has_add (marks : Marks size) (node other : Fin size) :
    (marks.add node).has other = (decide (node = other) || marks.has other) := by
  unfold add has
  rw [Vector.getElem_set]
  by_cases same : node = other
  · simp [same]
  · have differ : node.val ≠ other.val := fun equal => same (Fin.ext equal)
    simp [same, differ]

/-- The number of nodes without a mark. -/
def missing (marks : Marks size) : Nat := ((List.finRange size).filter (!marks.has ·)).length

theorem missing_add_lt {marks : Marks size} {node : Fin size} (fresh : marks.has node = false) :
    (marks.add node).missing < marks.missing := by
  refine Counting.length_filter_lt (fun other unseen => ?_) (List.mem_finRange node)
    (by rw [fresh]; rfl) (by rw [has_add]; simp)
  rw [has_add, Bool.not_or, Bool.and_eq_true] at unseen
  exact unseen.2

theorem missing_add_le (marks : Marks size) (node : Fin size) :
    (marks.add node).missing ≤ marks.missing := by
  refine Counting.length_filter_le _ fun other unseen => ?_
  rw [has_add, Bool.not_or, Bool.and_eq_true] at unseen
  exact unseen.2

end Marks

namespace Digraph

/-! Order. Nodes wait for what they need, counted with repetitions; whenever several are
ready, the first one goes first. -/

/-- How many needs of each node are still open, and the nodes that have none left and are
not taken yet, in ascending order. -/
structure Waiting (size : Nat) where
  pending : Vector Nat size
  ready : List (Fin size)

def insertReady (node : Fin size) : List (Fin size) → List (Fin size)
  | [] => [node]
  | first :: rest => if node < first then node :: first :: rest else first :: insertReady node rest

/-- Takes note that one need of a node is met. -/
def Waiting.release (waiting : Waiting size) (node : Fin size) : Waiting size :=
  match waiting.pending[node.val] with
  | 0 => waiting
  | 1 => ⟨waiting.pending.set node.val 0 node.isLt, insertReady node waiting.ready⟩
  | more + 2 => ⟨waiting.pending.set node.val (more + 1) node.isLt, waiting.ready⟩

/-- For each node, the nodes that need it, with repetitions. -/
def dependents (graph : Digraph size) : Vector (List (Fin size)) size :=
  (List.finRange size).foldl (fun table node =>
    (graph node).foldl (fun table need =>
      table.set need.val (node :: table[need.val]) need.isLt) table)
    (Vector.replicate size [])

def Waiting.start (graph : Digraph size) : Waiting size where
  pending := Vector.ofFn fun node => (graph node).length
  ready := (List.finRange size).filter fun node => (graph node).isEmpty

/-- Takes ready nodes, for at most the given number of rounds. -/
def takeReady (dependents : Vector (List (Fin size)) size) :
    (rounds : Nat) → Waiting size → List (Fin size)
  | 0, _ => []
  | rounds + 1, waiting =>
      match waiting.ready with
      | [] => []
      | node :: rest =>
          node :: takeReady dependents rounds
            (dependents[node.val].foldl Waiting.release { waiting with ready := rest })

/-- The nodes in an order in which each comes after all it needs, as far as there is one:
nodes that need themselves directly or indirectly are left out, and so is everything that
needs such a node. -/
def order (graph : Digraph size) : List (Fin size) :=
  takeReady graph.dependents size (Waiting.start graph)

/-! Cycles, found by a depth-first search. -/

/-- A node on the way of the search, with the needs that are not looked at yet. -/
structure Frame (size : Nat) where
  node : Fin size
  rest : List (Fin size)

/-- The number of steps that a stack allows without a new node. -/
def stackWork : List (Frame size) → Nat
  | [] => 0
  | frame :: outer => frame.rest.length + 1 + stackWork outer

/-- The way from a node to the top of the stack and back to the node. -/
def closeCycle (frames : List (Frame size)) (node : Fin size) : List (Fin size) :=
  node :: (((frames.map Frame.node).takeWhile (· ≠ node)).reverse ++ [node])

/-- Searches on from a stack of frames, the innermost first. Gives the marks of all nodes
met, or a cycle. -/
def search (graph : Digraph size) (met : Marks size) :
    List (Frame size) → Except (List (Fin size)) (Marks size)
  | [] => .ok met
  | ⟨_, []⟩ :: outer => search graph met outer
  | ⟨node, need :: rest⟩ :: outer =>
      if _fresh : met.has need = false then
        search graph (met.add need) (⟨need, graph need⟩ :: ⟨node, rest⟩ :: outer)
      else if node = need ∨ outer.any (·.node == need) then
        .error (closeCycle (⟨node, rest⟩ :: outer) need)
      else search graph met (⟨node, rest⟩ :: outer)
termination_by frames => (met.missing, stackWork frames)
decreasing_by
  · exact Prod.Lex.right _ (Nat.lt_add_of_pos_left (Nat.succ_pos _))
  · exact Prod.Lex.left _ _ (Marks.missing_add_lt _fresh)
  · exact Prod.Lex.right _ (Nat.add_lt_add_right (Nat.lt_succ_self _) _)

/-- A cycle, from a node back to the same node. -/
def findCycle (graph : Digraph size) : Option (List (Fin size)) :=
  let outcome := (List.finRange size).foldlM (fun met root =>
    if met.has root then .ok met else search graph (met.add root) [⟨root, graph root⟩])
    (Marks.none : Marks size)
  match outcome with
  | .ok _ => none
  | .error cycle => some cycle

/-! Closure. -/

/-- The marked nodes and everything that the nodes of a worklist need, directly or
indirectly; the start is left out. -/
def gather (graph : Digraph size) (start : Fin size) (met : Marks size) :
    List (Fin size) → Marks size
  | [] => met
  | node :: rest =>
      let fresh := (graph node).filter fun need => need ≠ start && !met.has need
      match _split : fresh with
      | [] => gather graph start met rest
      | need :: others =>
          gather graph start (others.foldl Marks.add (met.add need)) (need :: others ++ rest)
termination_by worklist => (met.missing, worklist.length)
decreasing_by
  · exact Prod.Lex.right _ (Nat.lt_succ_self _)
  · refine Prod.Lex.left _ _ ?_
    have member : need ∈ (graph node).filter fun need => need ≠ start && !met.has need := by
      rw [show ((graph node).filter fun need => need ≠ start && !met.has need) = need :: others
        from _split]
      exact List.mem_cons_self
    have unmet : met.has need = false := by
      have := (List.mem_filter.mp member).2
      simp only [Bool.and_eq_true, Bool.not_eq_true'] at this
      exact this.2
    have fewer : ∀ (nodes : List (Fin size)) (marks : Marks size),
        (nodes.foldl Marks.add marks).missing ≤ marks.missing := by
      intro nodes
      induction nodes with
      | nil => exact fun marks => Nat.le_refl _
      | cons first later induction =>
          intro marks
          exact Nat.le_trans (induction _) (Marks.missing_add_le marks first)
    exact Nat.lt_of_le_of_lt (fewer others _) (Marks.missing_add_lt unmet)

/-- The nodes that a node needs directly or indirectly, without the node itself. -/
def closure (graph : Digraph size) (start : Fin size) : List (Fin size) :=
  (List.finRange size).filter (graph.gather start Marks.none [start]).has

end Digraph

end FortranDeps.Build

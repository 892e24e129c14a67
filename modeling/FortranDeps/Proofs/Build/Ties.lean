import FortranDeps.Proofs.Build.CompileOrder

/-!
How an order of files breaks ties. The order is found by taking the first ready file of a
list, again and again. It is that of a list exactly if no file is taken while another one
that stands earlier in the list is ready; the compile order is that of the files in the order
of their first mention.
-/

namespace FortranDeps.Build

/-- Whether a file can be taken next. -/
def isReady (needs : Path → List Path) (taken : List Path) (file : Path) : Bool :=
  decide (file ∉ taken) && (needs file).all fun need => decide (need ∈ taken)

/-- Takes the first ready file of a list, for at most the given number of rounds. -/
def takeFirst (needs : Path → List Path) (files : List Path) :
    (rounds : Nat) → (taken : List Path) → List Path
  | 0, _ => []
  | rounds + 1, taken =>
      match files.find? (isReady needs taken) with
      | none => []
      | some file => file :: takeFirst needs files rounds (taken ++ [file])

def firstReadyOrder (needs : Path → List Path) (files : List Path) : List Path :=
  takeFirst needs files files.length []

variable {needs : Path → List Path} {files taken order : List Path} {file other : Path}

theorem is_ready_iff :
    isReady needs taken file = true ↔ file ∉ taken ∧ ∀ need ∈ needs file, need ∈ taken := by
  simp [isReady]

/-- Each file of the list comes after all it needs. -/
def Ordered (needs : Path → List Path) (order : List Path) : Prop :=
  ∀ before file after, order = before ++ file :: after → ∀ need ∈ needs file, need ∈ before

/-- No file is taken while one that stands earlier in the list of files is ready. -/
def InTurn (needs : Path → List Path) (files taken order : List Path) : Prop :=
  ∀ before file after, order = before ++ file :: after → ∀ other ∈ after,
    (∀ need ∈ needs other, need ∈ taken ++ before) → files.idxOf file < files.idxOf other

/-- The first ready file stands before all other ready ones. -/
theorem idx_of_lt_of_find? (found : files.find? (isReady needs taken) = some file)
    (ready : isReady needs taken other = true) (differ : other ≠ file) :
    files.idxOf file < files.idxOf other := by
  obtain ⟨own, before, after, rfl, passed⟩ := List.find?_eq_some_iff_append.mp found
  have absent : file ∉ before := by
    intro member
    have unready := passed file member
    simp [own] at unready
  have behind : other ∉ before := by
    intro member
    have unready := passed other member
    simp [ready] at unready
  rw [List.idxOf_append_of_notMem absent, List.idxOf_append_of_notMem behind,
    List.idxOf_cons_self, List.idxOf_cons_ne _ differ.symm]
  omega

theorem in_turn_cons_iff {rest : List Path} :
    InTurn needs files taken (file :: rest) ↔
      (∀ other ∈ rest, (∀ need ∈ needs other, need ∈ taken) →
        files.idxOf file < files.idxOf other) ∧ InTurn needs files (taken ++ [file]) rest := by
  constructor
  · intro turn
    constructor
    · intro other member met
      apply turn [] file rest rfl other member
      simpa using met
    · intro before next after split other member met
      apply turn (file :: before) next after (by rw [split]; rfl) other member
      simpa using met
  · rintro ⟨first, later⟩ before next after split other member met
    cases before with
    | nil =>
        obtain ⟨rfl, rfl⟩ := List.cons.inj split
        apply first other member
        simpa using met
    | cons head tail =>
        obtain ⟨rfl, rfl⟩ := List.cons.inj split
        apply later tail next after rfl other member
        simpa using met

/-- What is left of a valid order of all files is found by taking the first ready file exactly
if each file comes in its turn. -/
theorem take_first_eq_iff {rest : List Path} (ordered : Ordered needs (taken ++ rest))
    (nodup : (taken ++ rest).Nodup) (all : ∀ file, file ∈ files ↔ file ∈ taken ++ rest) :
    takeFirst needs files rest.length taken = rest ↔ InTurn needs files taken rest := by
  induction rest generalizing taken with
  | nil => simp [takeFirst, InTurn]
  | cons file rest induction =>
      have fresh : file ∉ taken := by
        intro member
        exact (List.nodup_append'.mp nodup).2.2 member List.mem_cons_self
      have ready : isReady needs taken file = true :=
        is_ready_iff.mpr ⟨fresh, ordered taken file rest rfl⟩
      have shift : taken ++ file :: rest = taken ++ [file] ++ rest := by simp
      have later := induction (shift ▸ ordered) (shift ▸ nodup) (fun other => shift ▸ all other)
      rw [in_turn_cons_iff, ← later, List.length_cons, takeFirst]
      cases found : files.find? (isReady needs taken) with
      | none =>
          have unready := List.find?_eq_none.mp found file ((all file).mpr (by simp))
          exact absurd ready unready
      | some first =>
          have able := List.find?_some found
          simp only [List.cons.injEq]
          constructor
          · rintro ⟨rfl, same⟩
            refine ⟨?_, same⟩
            intro other member met
            have apart : other ∉ taken := by
              intro earlier
              exact (List.nodup_append'.mp nodup).2.2 earlier (List.mem_cons_of_mem _ member)
            have differ : other ≠ first := by
              rintro rfl
              exact (List.nodup_cons.mp (List.nodup_append'.mp nodup).2.1).1 member
            exact idx_of_lt_of_find? found (is_ready_iff.mpr ⟨apart, met⟩) differ
          · rintro ⟨turn, same⟩
            have own : first = file := by
              by_contra differ
              have listed := (all first).mp (List.mem_of_find?_eq_some found)
              obtain ⟨untaken, met⟩ := is_ready_iff.mp able
              have inRest : first ∈ rest := by simpa [untaken, differ] using listed
              have less := turn first inRest met
              have more := idx_of_lt_of_find? found ready (Ne.symm differ)
              omega
            subst own
            exact ⟨rfl, same⟩

theorem first_ready_order_eq_iff (ordered : Ordered needs order) (nodup : order.Nodup)
    (perm : order.Perm files) :
    firstReadyOrder needs files = order ↔ InTurn needs files [] order := by
  unfold firstReadyOrder
  rw [← perm.length_eq]
  apply take_first_eq_iff
  · exact ordered
  · exact nodup
  · intro file
    exact perm.mem_iff.symm

/-- Of the nodes that are available, the least one is taken. -/
theorem Digraph.Greedy.le_available {size : Nat} {graph : Digraph size}
    {taken nodes : List (Fin size)} (greedy : Greedy graph taken nodes) :
    ∀ before node after, nodes = before ++ node :: after →
      ∀ other, graph.Available (taken ++ before) other → node ≤ other := by
  induction greedy with
  | done => simp
  | @take taken rest first available least later induction =>
      intro before node after split other able
      cases before with
      | nil =>
          obtain ⟨rfl, rfl⟩ := List.cons.inj split
          apply least
          simpa using able
      | cons head tail =>
          obtain ⟨rfl, rfl⟩ := List.cons.inj split
          apply induction tail node after rfl
          simpa using able

namespace DependencyGraph

namespace WellFormed

variable {graph : DependencyGraph}

theorem in_turn_order (formed : graph.WellFormed) :
    InTurn graph.prerequisites graph.files.toList [] (graph.toDigraph.order.map graph.fileAt) := by
  intro before file after split other member met
  obtain ⟨first, second, same, rfl, later⟩ := List.map_eq_append_iff.mp split
  obtain ⟨node, rest, rfl, rfl, rfl⟩ := List.map_eq_cons_iff.mp later
  obtain ⟨next, inRest, rfl⟩ := List.mem_map.mp member
  have nodup := graph.toDigraph.order_nodup
  rw [same] at nodup
  have available : graph.toDigraph.Available ([] ++ first) next := by
    constructor
    · intro earlier
      exact (List.nodup_append'.mp nodup).2.2 earlier (List.mem_cons_of_mem node inRest)
    · intro need needed
      rw [formed.prerequisites_file_at] at met
      exact (List.mem_map_of_injective formed.file_at_injective).mp
        (met _ (List.mem_map_of_mem needed))
  have least := graph.toDigraph.greedy_order.le_available first node rest same next available
  have differ : node ≠ next := by
    rintro rfl
    exact (List.nodup_cons.mp (List.nodup_append'.mp nodup).2.1).1 inRest
  rw [formed.idx_of_file_at, formed.idx_of_file_at]
  omega

/-- The compile order breaks ties by the positions of files. -/
theorem compile_order_eq_first_ready (formed : graph.WellFormed) (acyclic : graph.Acyclic) :
    graph.compileOrder = .ok (firstReadyOrder graph.prerequisites graph.files.toList) := by
  have schedule := formed.is_schedule_order acyclic
  have nodup := schedule.perm.nodup_iff.mpr formed.files_nodup
  rw [formed.compile_order_of_acyclic acyclic,
    (first_ready_order_eq_iff schedule.ordered nodup schedule.perm).mpr formed.in_turn_order]

end WellFormed

end DependencyGraph

end FortranDeps.Build

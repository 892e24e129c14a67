import FortranDeps.Proofs.Preprocess.Parts

/-!
The counters of open blocks in the preparation of a level. Enclosed items leave them as they
were, and inside of a block they are kept by a preparation as they stand.
-/

namespace FortranDeps.Preprocess

open Block

section After

variable {item : Item} (depth : Nat)

theorem depth_after_inert (inert : item.isInert = true) : depthAfter item depth = depth := by
  unfold depthAfter Item.opensBlock Item.closesBlock
  unfold Item.isInert at inert
  cases found : item.directive with
  | none => rfl
  | some directive =>
      rw [found] at inert
      cases directive <;> simp_all [Directive.opensBlock, Directive.closesBlock]

theorem depth_after_straight
    (straight : item.role = .content ∨ item.role = .passed ∨ item.role = .consumed) :
    depthAfter item depth = depth := by
  apply depth_after_inert
  unfold Item.isInert
  unfold Item.role at straight
  split <;> simp_all

theorem depth_after_opening (opens : item.opensBlock = true) :
    depthAfter item depth = depth + 1 := by
  unfold depthAfter
  rw [if_pos opens]

theorem depth_after_alternative (directive : item.directive = some .otherwise) :
    depthAfter item depth = depth := by
  unfold depthAfter Item.opensBlock Item.closesBlock
  rw [directive]
  rfl

theorem depth_after_end (directive : item.directive = some .endIf) :
    depthAfter item depth = depth - 1 := by
  unfold depthAfter Item.opensBlock Item.closesBlock
  rw [directive]
  rfl

theorem depth_after_mono (item : Item) {first second : Nat} (less : first ≤ second) :
    depthAfter item first ≤ depthAfter item second := by
  unfold depthAfter
  split
  · omega
  · split <;> omega

end After

/-- The number of open blocks behind items. -/
def depthThrough (items : List Item) (depth : Nat) : Nat :=
  items.foldl (fun depth item => depthAfter item depth) depth

theorem depth_through_enclosed {items : List Item} {inner : Nat} (enclosed : Enclosed inner items)
    (depth : Nat) : depthThrough items (depth + inner) = depth := by
  unfold depthThrough
  induction enclosed with
  | nil => rfl
  | inert inert _ induction => rw [List.foldl_cons, depth_after_inert _ inert, induction]
  | opening opens _ induction =>
      rw [List.foldl_cons, depth_after_opening _ opens, Nat.add_assoc, induction]
  | alternative directive _ induction =>
      rw [List.foldl_cons, depth_after_alternative _ directive, induction]
  | ending directive _ induction =>
      rw [List.foldl_cons, depth_after_end _ directive, ← Nat.add_assoc, Nat.add_sub_cancel,
        induction]

theorem splice_other (tree : FileTree) (paths : List Path) {item : Item} {depth : Nat}
    (other : item.isInclude = false ∨ 0 < depth) (rest : List Item) :
    splice tree paths (item :: rest) depth =
      ((splice tree paths rest (depthAfter item depth)).1.map (item :: ·),
        (splice tree paths rest (depthAfter item depth)).2) := by
  rw [splice.eq_def]
  simp only
  split
  · next directive =>
      rcases other with plain | inside
      · simp [Item.isInclude, directive] at plain
      · omega
  · rfl

theorem splice_include (tree : FileTree) (paths : List Path) {item : Item} {name : String}
    (directive : item.directive = some (.includeFile name)) (rest : List Item) :
    splice tree paths (item :: rest) 0 =
      match includedItems tree paths name item.line.location with
      | .error diagnostic => (.error diagnostic, [item.line.location])
      | .ok included =>
          ((splice tree paths rest 0).1.map (included ++ ·),
            item.line.location :: (splice tree paths rest 0).2) := by
  obtain ⟨line, found⟩ := item
  obtain rfl : found = some (.includeFile name) := directive
  rfl

/-- Items without includes are kept at every depth. -/
theorem splice_append (tree : FileTree) (paths : List Path) {items : List Item}
    (plain : ∀ item ∈ items, item.isInclude = false) (rest : List Item) (depth : Nat) :
    (splice tree paths (items ++ rest) depth).1 =
      (splice tree paths rest (depthThrough items depth)).1.map (items ++ ·) := by
  induction items generalizing depth with
  | nil =>
      change (splice tree paths rest depth).1 = (splice tree paths rest depth).1.map id
      cases (splice tree paths rest depth).1 <;> rfl
  | cons item items induction =>
      have later := induction fun other member => plain other (List.mem_cons_of_mem item member)
      have through : depthThrough (item :: items) depth =
          depthThrough items (depthAfter item depth) := rfl
      rw [List.cons_append, splice_other _ _ (.inl (plain item List.mem_cons_self)), later, through]
      cases (splice tree paths rest (depthThrough items (depthAfter item depth))).1 <;> rfl

/-- An item outside of blocks may change the table, and is dropped then; every other item is
kept. -/
theorem apply_definitions_cons (item : Item) (depth : Nat) :
    (∃ update : MacroTable → MacroTable, depthAfter item depth = depth ∧ ∀ rest table,
      applyDefinitions (item :: rest) depth table = applyDefinitions rest depth (update table)) ∨
    ∀ rest table, applyDefinitions (item :: rest) depth table =
      (item :: (applyDefinitions rest (depthAfter item depth) table).1,
        (applyDefinitions rest (depthAfter item depth) table).2) := by
  cases depth with
  | succ depth => exact .inr fun rest table => apply_definitions_inside item rest depth table
  | zero =>
      match directive : item.directive with
      | some (.define name value) =>
          refine .inl ⟨(·.define name value), depth_after_inert 0 ?_, ?_⟩
          · simp [Item.isInert, directive]
          · intro rest table
            simp only [applyDefinitions, directive]
      | some (.undefine name) =>
          refine .inl ⟨(·.undefine name), depth_after_inert 0 ?_, ?_⟩
          · simp [Item.isInert, directive]
          · intro rest table
            simp only [applyDefinitions, directive]
      | none | some (.includeFile _) | some (.ifDefined _) | some (.ifUndefined _)
      | some .otherwise | some .endIf | some (.unsupported _) | some (.unknown _) =>
          right
          intro rest table
          simp only [applyDefinitions, directive]

/-- Inside of a block enclosed items are kept, definitions too. -/
theorem apply_definitions_enclosed {items : List Item} {inner : Nat}
    (enclosed : Enclosed inner items) (rest : List Item) (depth : Nat) (table : MacroTable) :
    applyDefinitions (items ++ rest) (depth + inner + 1) table =
      (items ++ (applyDefinitions rest (depth + 1) table).1,
        (applyDefinitions rest (depth + 1) table).2) := by
  induction enclosed with
  | nil => rfl
  | inert inert _ induction =>
      rw [List.cons_append, apply_definitions_inside, depth_after_inert _ inert, induction]
      rfl
  | opening opens _ induction =>
      rw [List.cons_append, apply_definitions_inside, depth_after_opening _ opens,
        Nat.add_assoc depth, induction]
      rfl
  | alternative directive _ induction =>
      rw [List.cons_append, apply_definitions_inside, depth_after_alternative _ directive,
        induction]
      rfl
  | ending directive _ induction =>
      rw [List.cons_append, apply_definitions_inside, depth_after_end _ directive,
        Nat.add_sub_cancel, ← Nat.add_assoc, induction]
      rfl

end FortranDeps.Preprocess

import FortranDeps.Preprocess.Evaluation
import FortranDeps.Preprocess.Inclusion
import FortranDeps.Preprocess.MacroTable

/-!
The preparation of a level, which is the whole file or a chosen branch. Includes outside
of inner blocks are replaced by the lines of their files, then definitions outside of
inner blocks are applied and dropped. An included file cannot include another one, so
preparing a level never adds to the includes that are left.
-/

namespace FortranDeps.Preprocess

/-- The number of open blocks after an item. An end without an opening counts for
nothing. -/
def depthAfter (item : Item) (depth : Nat) : Nat :=
  if item.opensBlock then depth + 1 else if item.closesBlock then depth - 1 else depth

/-- What a run keeps track of: the defined names, and the includes that were looked up. -/
structure Progress where
  table : MacroTable
  loaded : List Location
  deriving DecidableEq

/-- Replaces the includes outside of blocks. The second result holds the locations of the
includes that were looked up. -/
def splice (tree : FileTree) (paths : List Path) :
    List Item → (depth : Nat) → Except Diagnostic (List Item) × List Location
  | [], _ => (.ok [], [])
  | item :: rest, depth =>
      match item.directive, depth with
      | some (.includeFile name), 0 =>
          match includedItems tree paths name item.line.location with
          | .error diagnostic => (.error diagnostic, [item.line.location])
          | .ok included =>
              let (later, loaded) := splice tree paths rest 0
              (later.map (included ++ ·), item.line.location :: loaded)
      | _, _ =>
          let (later, loaded) := splice tree paths rest (depthAfter item depth)
          (later.map (item :: ·), loaded)

/-- Applies and drops the definitions outside of blocks. -/
def applyDefinitions : List Item → (depth : Nat) → MacroTable → List Item × MacroTable
  | [], _, table => ([], table)
  | item :: rest, depth, table =>
      match item.directive, depth with
      | some (.define name value), 0 => applyDefinitions rest 0 (table.define name value)
      | some (.undefine name), 0 => applyDefinitions rest 0 (table.undefine name)
      | _, _ =>
          let (later, final) := applyDefinitions rest (depthAfter item depth) table
          (item :: later, final)

def prepareLevel (tree : FileTree) (paths : List Path) (level : List Item) (progress : Progress) :
    Except Diagnostic (List Item) × Progress :=
  match splice tree paths level 0 with
  | (.error diagnostic, loaded) =>
      (.error diagnostic, { progress with loaded := progress.loaded ++ loaded })
  | (.ok spliced, loaded) =>
      let (prepared, table) := applyDefinitions spliced 0 progress.table
      (.ok prepared, ⟨table, progress.loaded ++ loaded⟩)

theorem included_item_not_include {name : String} {line : Line} {item : Item}
    (read : includedItem name line = .ok item) : item.isInclude = false := by
  unfold includedItem at read
  cases classified : Item.ofLine line with
  | error _ => simp [classified, bind, Except.bind] at read
  | ok found =>
      simp only [classified, bind, Except.bind] at read
      split at read
      · cases read
      · next other =>
          cases read
          unfold Item.isInclude
          split
          · next target same => exact absurd same (other target)
          · rfl

theorem outputs_all {Input Output Fault : Type} {f : Input → Except Fault Output}
    {property : Output → Prop}
    (each : ∀ input output, f input = .ok output → property output) (inputs : List Input) :
    ∀ outputs, inputs.mapM f = .ok outputs → ∀ output ∈ outputs, property output := by
  induction inputs with
  | nil =>
      intro outputs result output member
      simp only [List.mapM_nil, pure, Except.pure, Except.ok.injEq] at result
      simp [← result] at member
  | cons input rest induction =>
      intro outputs result output member
      rw [List.mapM_cons] at result
      cases first : f input with
      | error _ => simp [first, bind, Except.bind] at result
      | ok head =>
          cases later : rest.mapM f with
          | error _ => simp [first, later, bind, Except.bind] at result
          | ok tail =>
              simp only [first, later, bind, Except.bind, pure, Except.pure,
                Except.ok.injEq] at result
              rw [← result] at member
              rcases List.mem_cons.mp member with same | inTail
              · exact same ▸ each input head first
              · exact induction tail later output inTail

theorem include_count_included_items {tree : FileTree} {paths : List Path} {name : String}
    {location : Location} {items : List Item}
    (read : includedItems tree paths name location = .ok items) : includeCount items = 0 := by
  unfold includedItems at read
  cases loaded : loadInclude tree paths name location with
  | error _ => simp [loaded, bind, Except.bind] at read
  | ok lines =>
      simp only [loaded, bind, Except.bind] at read
      have none := outputs_all (fun _ _ => included_item_not_include) lines items read
      exact List.countP_eq_zero.mpr fun item member => by simp [none item member]

theorem include_count_cons (item : Item) (items : List Item) :
    includeCount (item :: items) = includeCount items + (if item.isInclude then 1 else 0) :=
  List.countP_cons

theorem splice_no_heavier (tree : FileTree) (paths : List Path) (items : List Item) (depth : Nat) :
    ∀ spliced, (splice tree paths items depth).1 = .ok spliced → NoHeavier spliced items := by
  fun_induction splice tree paths items depth with
  | case1 => intro spliced result; cases result; exact .refl _
  | case2 => intro spliced result; cases result
  | case3 item rest name directive included read later loaded result induction =>
      intro spliced joined
      rw [result] at induction
      cases later with
      | error _ => cases joined
      | ok tail =>
          obtain rfl : included ++ tail = spliced := Except.ok.inj joined
          have light := (induction tail rfl).1
          have counted : includeCount (item :: rest) = includeCount rest + 1 := by
            rw [include_count_cons, if_pos (by simp [Item.isInclude, directive])]
          have none := include_count_included_items read
          have parts :
              includeCount (included ++ tail) = includeCount included + includeCount tail :=
            List.countP_append
          constructor
          · omega
          · intro same
            omega
  | case4 item rest depth later loaded result _ induction =>
      rw [result] at induction ⊢
      intro spliced joined
      cases later with
      | error _ => cases joined
      | ok tail =>
          obtain rfl : item :: tail = spliced := Except.ok.inj joined
          have light := induction tail rfl
          constructor
          · rw [include_count_cons, include_count_cons]
            exact Nat.add_le_add_right light.1 _
          · intro same
            rw [include_count_cons, include_count_cons] at same
            exact Nat.succ_le_succ (light.2 (Nat.add_right_cancel same))

theorem apply_definitions_sublist (items : List Item) (depth : Nat) (table : MacroTable) :
    (applyDefinitions items depth table).1.Sublist items := by
  fun_induction applyDefinitions items depth table with
  | case1 => exact .slnil
  | case2 _ _ _ _ _ _ induction | case3 _ _ _ _ _ induction => exact induction.cons _
  | case4 item rest depth table later final result _ _ induction =>
      rw [result] at induction ⊢
      exact induction.cons_cons item

theorem prepare_level_no_heavier (tree : FileTree) (paths : List Path) (level : List Item)
    (progress : Progress) (prepared : List Item)
    (result : (prepareLevel tree paths level progress).1 = .ok prepared) :
    NoHeavier prepared level := by
  unfold prepareLevel at result
  match spliced : splice tree paths level 0 with
  | (.error _, _) => simp [spliced] at result
  | (.ok items, loaded) =>
      simp only [spliced, Except.ok.injEq] at result
      have light := splice_no_heavier tree paths level 0 items (by rw [spliced])
      have fewer := apply_definitions_sublist items 0 progress.table
      rw [result] at fewer
      have includes : includeCount prepared ≤ includeCount items := fewer.countP_le
      refine ⟨Nat.le_trans includes light.1, fun same => ?_⟩
      have equal : includeCount items = includeCount level :=
        Nat.le_antisymm light.1 (same ▸ includes)
      exact Nat.le_trans fewer.length_le (light.2 equal)

end FortranDeps.Preprocess

import FortranDeps.Proofs.Preprocess.Walk

/-!
Sources as trees of conditional blocks. A tree has a meaning by recursion over its
elements, with no positions, depths or searches for the end of a block. The preprocessor
on the lines of a tree gives that meaning, whatever the table it starts from: it never
fails, writes the same lines and ends with the same table.
-/

namespace FortranDeps.Preprocess

/-- A line that is read as the given directive, or as content. -/
structure LineAs (directive : Option Directive) where
  line : Line
  reads : Directive.classify line.text = .ok directive

namespace LineAs

variable {directive : Option Directive}

def item (read : LineAs directive) : Item := ⟨read.line, directive⟩

theorem of_line_item (read : LineAs directive) : Item.ofLine read.item.line = .ok read.item := by
  unfold Item.ofLine item
  simp only [read.reads]

end LineAs

/-- The directive that opens a block on whether a name is defined. -/
def Directive.condition (name : String) (wantsDefined : Bool) : Directive :=
  if wantsDefined then .ifDefined name else .ifUndefined name

/-- A list of elements: content lines, unknown directives, definitions, and blocks with or
without an alternative. Inclusions and conditions on expressions are left out. -/
inductive BlockTree where
  | nil
  | content (line : LineAs none) (rest : BlockTree)
  | unknown (keyword : String) (line : LineAs (some (.unknown keyword))) (rest : BlockTree)
  | define (name : String) (value : Option String)
      (line : LineAs (some (.define name value))) (rest : BlockTree)
  | undefine (name : String) (line : LineAs (some (.undefine name))) (rest : BlockTree)
  | block (name : String) (wantsDefined : Bool)
      (opening : LineAs (some (.condition name wantsDefined))) (first : BlockTree)
      (ending : LineAs (some .endIf)) (rest : BlockTree)
  | alternatives (name : String) (wantsDefined : Bool)
      (opening : LineAs (some (.condition name wantsDefined))) (first : BlockTree)
      (middle : LineAs (some .otherwise)) (second : BlockTree)
      (ending : LineAs (some .endIf)) (rest : BlockTree)

namespace BlockTree

/-- The elements of a tree in order, blocks written out. -/
def items : BlockTree → List Item
  | nil => []
  | content line rest => line.item :: rest.items
  | unknown _ line rest => line.item :: rest.items
  | define _ _ line rest => line.item :: rest.items
  | undefine _ line rest => line.item :: rest.items
  | block _ _ opening first ending rest =>
      opening.item :: (first.items ++ ending.item :: rest.items)
  | alternatives _ _ opening first middle second ending rest =>
      opening.item :: (first.items ++ middle.item :: (second.items ++ ending.item :: rest.items))

def lines (tree : BlockTree) : List Line := tree.items.map Item.line

/-- The table after all definitions of a level, those inside its blocks not counted. -/
def definitions : BlockTree → MacroTable → MacroTable
  | nil, table => table
  | content _ rest, table => rest.definitions table
  | unknown _ _ rest, table => rest.definitions table
  | define name value _ rest, table => rest.definitions (table.define name value)
  | undefine name _ rest, table => rest.definitions (table.undefine name)
  | block _ _ _ _ _ rest, table => rest.definitions table
  | alternatives _ _ _ _ _ _ _ rest, table => rest.definitions table

/-- The lines that the elements of a level stand for, from left to right, once the level's
definitions are applied, and the table after them. A block applies the definitions of its
chosen branch first. -/
def resolve : BlockTree → MacroTable → List Line × MacroTable
  | nil, table => ([], table)
  | content line rest, table =>
      let (after, final) := rest.resolve table
      (emitLine line.line table :: after, final)
  | unknown _ line rest, table =>
      let (after, final) := rest.resolve table
      (line.line :: after, final)
  | define _ _ _ rest, table => rest.resolve table
  | undefine _ _ rest, table => rest.resolve table
  | block name wantsDefined _ first _ rest, table =>
      let (inner, middle) :=
        if table.isDefined name == wantsDefined then first.resolve (first.definitions table)
        else ([], table)
      let (after, final) := rest.resolve middle
      (inner ++ after, final)
  | alternatives name wantsDefined _ first _ second _ rest, table =>
      let (inner, middle) :=
        if table.isDefined name == wantsDefined then first.resolve (first.definitions table)
        else second.resolve (second.definitions table)
      let (after, final) := rest.resolve middle
      (inner ++ after, final)

/-- The lines of a tree and the table after it: definitions of the level first, then its
other elements. -/
def meaning (tree : BlockTree) (table : MacroTable) : List Line × MacroTable :=
  tree.resolve (tree.definitions table)

/-- What is left of a level once its definitions are dropped. -/
def residue : BlockTree → BlockTree
  | nil => nil
  | content line rest => content line rest.residue
  | unknown keyword line rest => unknown keyword line rest.residue
  | define _ _ _ rest => rest.residue
  | undefine _ _ rest => rest.residue
  | block name wantsDefined opening first ending rest =>
      block name wantsDefined opening first ending rest.residue
  | alternatives name wantsDefined opening first middle second ending rest =>
      alternatives name wantsDefined opening first middle second ending rest.residue

/-! Reading the lines of a tree gives back its items, and none of them is an include. -/

theorem items_readable (tree : BlockTree) :
    ∀ item ∈ tree.items, Item.ofLine item.line = .ok item ∧ item.isInclude = false := by
  have opening_readable {name : String} {wantsDefined : Bool}
      (opening : LineAs (some (.condition name wantsDefined))) :
      Item.ofLine opening.item.line = .ok opening.item ∧ opening.item.isInclude = false :=
    ⟨opening.of_line_item, by cases wantsDefined <;> rfl⟩
  induction tree with
  | nil => simp [items]
  | content line rest later | unknown _ line rest later | define _ _ line rest later
  | undefine _ line rest later =>
      intro item member
      rcases List.mem_cons.mp member with rfl | inRest
      · exact ⟨line.of_line_item, rfl⟩
      · exact later item inRest
  | block _ _ opening first ending rest inFirst later =>
      intro item member
      simp only [items, List.mem_cons, List.mem_append] at member
      rcases member with rfl | inside | rfl | inRest
      · exact opening_readable opening
      · exact inFirst item inside
      · exact ⟨ending.of_line_item, rfl⟩
      · exact later item inRest
  | alternatives _ _ opening first middle second ending rest inFirst inSecond later =>
      intro item member
      simp only [items, List.mem_cons, List.mem_append] at member
      rcases member with rfl | inside | rfl | inside | rfl | inRest
      · exact opening_readable opening
      · exact inFirst item inside
      · exact ⟨middle.of_line_item, rfl⟩
      · exact inSecond item inside
      · exact ⟨ending.of_line_item, rfl⟩
      · exact later item inRest

theorem of_lines (tree : BlockTree) : Item.ofLines tree.lines = .ok tree.items := by
  have readable := tree.items_readable
  unfold Item.ofLines lines
  generalize tree.items = items at readable
  induction items with
  | nil => rfl
  | cons item rest induction =>
      have later := induction fun other member => readable other (List.mem_cons_of_mem item member)
      rw [List.map_cons, List.mapM_cons, (readable item List.mem_cons_self).1, later]
      rfl

/-! The search for the end of a block passes over whole trees, at every depth. -/

section Close

variable (opening : Nat) (location : Location) (rest : List Item) (index depth : Nat)
  (alternative : Option Nat)

theorem close_opening {name : String} {wantsDefined : Bool}
    (start : LineAs (some (.condition name wantsDefined))) :
    Block.close opening location (start.item :: rest) index depth alternative =
      Block.close opening location rest (index + 1) (depth + 1) alternative := by
  cases wantsDefined <;> rfl

theorem close_inner_alternative (middle : LineAs (some .otherwise)) :
    Block.close opening location (middle.item :: rest) index (depth + 1) alternative =
      Block.close opening location rest (index + 1) (depth + 1) alternative := rfl

theorem close_inner_end (ending : LineAs (some .endIf)) :
    Block.close opening location (ending.item :: rest) index (depth + 1) alternative =
      Block.close opening location rest (index + 1) depth alternative := rfl

theorem close_append (tree : BlockTree) :
    Block.close opening location (tree.items ++ rest) index depth alternative =
      Block.close opening location rest (index + tree.items.length) depth alternative := by
  -- The depth is general because the trees inside a block are passed over one level deeper.
  induction tree generalizing rest index depth with
  | nil => rfl
  | content line tail later | unknown _ line tail later | define _ _ line tail later
  | undefine _ line tail later =>
      change Block.close opening location (tail.items ++ rest) (index + 1) depth alternative = _
      rw [later, items, List.length_cons, Nat.add_assoc, Nat.add_comm 1]
  | block _ _ start first ending tail inFirst later =>
      simp only [items, List.cons_append, List.append_assoc]
      rw [close_opening, inFirst, close_inner_end, later]
      simp only [List.length_cons, List.length_append]
      congr 1
      omega
  | alternatives _ _ start first middle second ending tail inFirst inSecond later =>
      simp only [items, List.cons_append, List.append_assoc]
      rw [close_opening, inFirst, close_inner_alternative, inSecond, close_inner_end, later]
      simp only [List.length_cons, List.length_append]
      congr 1
      omega

end Close

theorem close_block (location : Location) (first : BlockTree) (ending : LineAs (some .endIf))
    (rest : List Item) :
    Block.close 0 location (first.items ++ ending.item :: rest) 1 0 none =
      .ok ⟨0, none, 1 + first.items.length⟩ := by
  rw [close_append]
  rfl

theorem close_alternatives (location : Location) (first second : BlockTree)
    (middle : LineAs (some .otherwise)) (ending : LineAs (some .endIf)) (rest : List Item) :
    Block.close 0 location
        (first.items ++ middle.item :: (second.items ++ ending.item :: rest)) 1 0 none =
      .ok ⟨0, some (1 + first.items.length),
        1 + first.items.length + 1 + second.items.length⟩ := by
  have reached (position : Nat) :
      Block.close 0 location (middle.item :: (second.items ++ ending.item :: rest)) position 0
          none =
        Block.close 0 location (second.items ++ ending.item :: rest) (position + 1) 0
          (some position) := rfl
  rw [close_append, reached, close_append]
  rfl

/-! Preparing the items of a tree applies and drops the definitions of its level only. -/

theorem depth_after_opening {name : String} {wantsDefined : Bool}
    (opening : LineAs (some (.condition name wantsDefined))) (depth : Nat) :
    depthAfter opening.item depth = depth + 1 := by
  cases wantsDefined <;> rfl

theorem role_opening {name : String} {wantsDefined : Bool}
    (opening : LineAs (some (.condition name wantsDefined))) :
    opening.item.role = .condition name wantsDefined := by
  cases wantsDefined <;> rfl

theorem apply_definitions_append (tree : BlockTree) (rest : List Item) (depth : Nat)
    (table : MacroTable) :
    applyDefinitions (tree.items ++ rest) (depth + 1) table =
      (tree.items ++ (applyDefinitions rest (depth + 1) table).1,
        (applyDefinitions rest (depth + 1) table).2) := by
  induction tree generalizing rest depth with
  | nil => rfl
  | content line tail later | unknown _ line tail later | define _ _ line tail later
  | undefine _ line tail later =>
      have same : depthAfter line.item (depth + 1) = depth + 1 := rfl
      simp only [items, List.cons_append]
      rw [apply_definitions_inside, same, later]
  | block _ _ opening first ending tail inFirst later =>
      have closed : depthAfter ending.item (depth + 2) = depth + 1 := rfl
      simp only [items, List.cons_append, List.append_assoc]
      rw [apply_definitions_inside, depth_after_opening, inFirst, apply_definitions_inside, closed,
        later]
  | alternatives _ _ opening first middle second ending tail inFirst inSecond later =>
      have same : depthAfter middle.item (depth + 2) = depth + 2 := rfl
      have closed : depthAfter ending.item (depth + 2) = depth + 1 := rfl
      simp only [items, List.cons_append, List.append_assoc]
      rw [apply_definitions_inside, depth_after_opening, inFirst, apply_definitions_inside, same,
        inSecond, apply_definitions_inside, closed, later]

theorem apply_definitions_items (tree : BlockTree) (table : MacroTable) :
    applyDefinitions tree.items 0 table = (tree.residue.items, tree.definitions table) := by
  induction tree generalizing table with
  | nil => rfl
  | content line rest later | unknown _ line rest later =>
      have same : depthAfter line.item 0 = 0 := rfl
      rw [items, apply_definitions_other (by simp [Item.role, LineAs.item]), same, later]
      rfl
  | define name value line rest later => exact later (table.define name value)
  | undefine name line rest later => exact later (table.undefine name)
  | block _ _ opening first ending rest _ later =>
      have closed : depthAfter ending.item 1 = 0 := rfl
      rw [items, apply_definitions_other (by simp [role_opening]), depth_after_opening,
        apply_definitions_append, apply_definitions_inside, closed, later]
      rfl
  | alternatives _ _ opening first middle second ending rest _ _ later =>
      have same : depthAfter middle.item 1 = 1 := rfl
      have closed : depthAfter ending.item 1 = 0 := rfl
      rw [items, apply_definitions_other (by simp [role_opening]), depth_after_opening,
        apply_definitions_append, apply_definitions_inside, same, apply_definitions_append,
        apply_definitions_inside, closed, later]
      rfl

theorem prepare_items (files : FileTree) (paths : List Path) (tree : BlockTree)
    (progress : Progress) :
    prepareLevel files paths tree.items progress =
      (.ok tree.residue.items, ⟨tree.definitions progress.table, progress.loaded⟩) := by
  have spliced :=
    splice_eq_self files paths (fun item member => (tree.items_readable item member).2) 0
  unfold prepareLevel
  rw [spliced]
  simp only [apply_definitions_items, List.append_nil]

/-! The walk over what is left of a level. -/

theorem slice_first (opening middle : Item) (first : BlockTree) (rest : List Item) :
    slice (opening :: (first.items ++ middle :: rest)) (1, 1 + first.items.length) =
      first.items := by
  simp [slice]

theorem slice_second (opening middle ending : Item) (first second : BlockTree) (rest : List Item) :
    slice (opening :: (first.items ++ middle :: (second.items ++ ending :: rest)))
        (1 + first.items.length + 1, 1 + first.items.length + 1 + second.items.length) =
      second.items := by
  have skipped : 1 + first.items.length + 1 = (opening :: (first.items ++ [middle])).length := by
    simp
    omega
  have shape : opening :: (first.items ++ middle :: (second.items ++ ending :: rest)) =
      (opening :: (first.items ++ [middle])) ++ (second.items ++ ending :: rest) := by
    simp
  unfold slice
  rw [shape, skipped, List.drop_left, Nat.add_sub_cancel_left, List.take_left]

/-- The outcome of a walk that gives what a tree stands for and looks up no include. -/
def walked (result : List Line × MacroTable) (progress : Progress) :
    Except Diagnostic (List Line) × Progress :=
  (.ok result.1, ⟨result.2, progress.loaded⟩)

section Walk

variable (files : FileTree) (paths : List Path)

/-- A block stands for the meaning of the branch that it selects. -/
theorem walk_selected {name : String} {wantsDefined : Bool}
    (opening : LineAs (some (.condition name wantsDefined))) {rest : List Item} {block : Block}
    (closed : Block.close 0 opening.item.line.location rest 1 0 none = .ok block)
    {progress : Progress} (chosen : BlockTree)
    (selected : (walker files paths).branch progress (opening.item :: rest) block name
      wantsDefined = chosen.items)
    (inner : ∀ start, (walker files paths).walk chosen.residue.items start =
      walked (chosen.resolve start.table) start) :
    (walker files paths).walk (opening.item :: rest) progress =
      let after := (walker files paths).walk (rest.drop block.ending)
        ⟨(chosen.meaning progress.table).2, progress.loaded⟩
      (after.1.map ((chosen.meaning progress.table).1 ++ ·), after.2) := by
  have preparation : (walker files paths).prepare
      ((walker files paths).branch progress (opening.item :: rest) block name wantsDefined)
      progress =
        (.ok chosen.residue.items, ⟨chosen.definitions progress.table, progress.loaded⟩) := by
    rw [selected]
    exact prepare_items files paths chosen progress
  exact (walker files paths).walk_condition (role_opening opening) closed preparation (inner _)

theorem walk_residue (tree : BlockTree) (progress : Progress) :
    (walker files paths).walk tree.residue.items progress =
      walked (tree.resolve progress.table) progress := by
  induction tree generalizing progress with
  | nil => exact (walker files paths).walk_nil progress
  | content line rest later =>
      rw [residue, items, (walker files paths).walk_content rfl, later]
      rfl
  | unknown _ line rest later =>
      rw [residue, items, (walker files paths).walk_passed rfl, later]
      rfl
  | define _ _ _ rest later | undefine _ _ rest later => exact later progress
  | block name wantsDefined opening first ending rest inFirst later =>
      have closed := close_block opening.item.line.location first ending rest.residue.items
      have behind : (first.items ++ ending.item :: rest.residue.items).drop
          (1 + first.items.length) = rest.residue.items := by
        rw [Nat.add_comm, ← List.drop_drop, List.drop_left]
        rfl
      rw [residue, items]
      by_cases chosen : (progress.table.isDefined name == wantsDefined) = true
      · rw [walk_selected files paths opening closed first
          ((if_pos chosen).trans (slice_first _ _ first _)) inFirst, behind, later]
        simp only [walked, resolve, meaning, if_pos chosen]
        rfl
      · rw [walk_selected files paths opening closed nil
          ((if_neg chosen).trans (by simp [slice, Block.elseRange, items]))
          (walker files paths).walk_nil, behind, later]
        simp only [walked, resolve, meaning, if_neg chosen]
        rfl
  | alternatives name wantsDefined opening first middle second ending rest inFirst inSecond later =>
      have closed := close_alternatives opening.item.line.location first second middle ending
        rest.residue.items
      have behind : (first.items ++ middle.item :: (second.items ++ ending.item ::
          rest.residue.items)).drop (1 + first.items.length + 1 + second.items.length) =
          rest.residue.items := by
        have count : 1 + first.items.length + 1 + second.items.length =
            first.items.length + (1 + (second.items.length + 1)) := by omega
        rw [count, ← List.drop_drop, List.drop_left, ← List.drop_drop, ← List.drop_drop]
        simp only [List.drop_succ_cons, List.drop_zero, List.drop_left]
      rw [residue, items]
      by_cases chosen : (progress.table.isDefined name == wantsDefined) = true
      · rw [walk_selected files paths opening closed first
          ((if_pos chosen).trans (slice_first _ _ first _)) inFirst, behind, later]
        simp only [walked, resolve, meaning, if_pos chosen]
        rfl
      · rw [walk_selected files paths opening closed second
          ((if_neg chosen).trans (slice_second _ _ _ first second _)) inSecond, behind, later]
        simp only [walked, resolve, meaning, if_neg chosen]
        rfl

end Walk

/-- On the lines of a tree the preprocessor succeeds from every table, writes the lines
that the tree stands for and ends with the table after them. -/
theorem preprocess_lines_eq_meaning (files : FileTree) (paths : List Path) (tree : BlockTree)
    (table : MacroTable) :
    preprocess files paths tree.lines table =
      (.ok (tree.meaning table).1, ⟨(tree.meaning table).2, []⟩) := by
  unfold preprocess
  rw [of_lines]
  simp only [prepare_items, walk_residue]
  rfl

/-- A source with a definition and an unknown directive, with a block in a branch that drops a
definition, and with a block behind it on the dropped name. -/
def haloSource : BlockTree :=
  .define "REAL_KIND" (some "8") ⟨⟨"#define REAL_KIND 8", ⟨"halo.F90", 1⟩⟩, by cbv⟩ <|
  .content ⟨⟨"module halo", ⟨"halo.F90", 2⟩⟩, by cbv⟩ <|
  .unknown "pragma" ⟨⟨"#pragma once", ⟨"halo.F90", 3⟩⟩, by cbv⟩ <|
  .alternatives "MPI" true ⟨⟨"#ifdef MPI", ⟨"halo.F90", 4⟩⟩, by cbv⟩
    (.undefine "DEBUG" ⟨⟨"#undef DEBUG", ⟨"halo.F90", 5⟩⟩, by cbv⟩ <|
      .alternatives "SERIAL" false ⟨⟨"#ifndef SERIAL", ⟨"halo.F90", 6⟩⟩, by cbv⟩
        (.content ⟨⟨"real(REAL_KIND) :: ghost", ⟨"halo.F90", 7⟩⟩, by cbv⟩ .nil)
        ⟨⟨"#else", ⟨"halo.F90", 8⟩⟩, by cbv⟩
        (.content ⟨⟨"integer :: ghost", ⟨"halo.F90", 9⟩⟩, by cbv⟩ .nil)
        ⟨⟨"#endif", ⟨"halo.F90", 10⟩⟩, by cbv⟩ .nil)
    ⟨⟨"#else", ⟨"halo.F90", 11⟩⟩, by cbv⟩
    (.content ⟨⟨"use serial", ⟨"halo.F90", 12⟩⟩, by cbv⟩ .nil)
    ⟨⟨"#endif", ⟨"halo.F90", 13⟩⟩, by cbv⟩ <|
  .block "DEBUG" true ⟨⟨"#ifdef DEBUG", ⟨"halo.F90", 14⟩⟩, by cbv⟩
    (.content ⟨⟨"logical :: traced", ⟨"halo.F90", 15⟩⟩, by cbv⟩ .nil)
    ⟨⟨"#endif", ⟨"halo.F90", 16⟩⟩, by cbv⟩ .nil

def haloSeeds : MacroTable := (MacroTable.empty.define "DEBUG" none).define "MPI" none

theorem halo_source_means_its_branches :
    preprocess (.empty []) [] haloSource.lines haloSeeds =
      (.ok [⟨"module halo", ⟨"halo.F90", 2⟩⟩, ⟨"#pragma once", ⟨"halo.F90", 3⟩⟩,
          ⟨"real(8) :: ghost", ⟨"halo.F90", 7⟩⟩],
        ⟨(MacroTable.empty.define "MPI" none).define "REAL_KIND" (some "8"), []⟩) ∧
    preprocess (.empty []) [] haloSource.lines .empty =
      (.ok [⟨"module halo", ⟨"halo.F90", 2⟩⟩, ⟨"#pragma once", ⟨"halo.F90", 3⟩⟩,
          ⟨"use serial", ⟨"halo.F90", 12⟩⟩],
        ⟨MacroTable.empty.define "REAL_KIND" (some "8"), []⟩) := by
  rw [preprocess_lines_eq_meaning, preprocess_lines_eq_meaning]
  decide +kernel

end BlockTree

end FortranDeps.Preprocess

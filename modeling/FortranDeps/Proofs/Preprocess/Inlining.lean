import FortranDeps.Proofs.Preprocess.Depth

/-!
An include behaves like the lines of its file. Two levels are compared, one of which has the
lines of some files where the other one has their includes. A preparation either replaces an
include or finds it inside of a block, and then it stands inside of a block for the walk as
well, so that the walk never meets an include that is left. Lines, failures and tables of the
two runs are the same; only the includes that were looked up differ.
-/

namespace FortranDeps.Preprocess

open Block

/-- An include whose file can be read and closes its own blocks. -/
structure Includes (tree : FileTree) (paths : List Path) (item : Item) (items : List Item) :
    Prop where
  reads : ∃ name, item.directive = some (.includeFile name) ∧
    includedItems tree paths name item.line.location = .ok items
  enclosed : Enclosed 0 items

/-- The second list has the lines of files where the first one may have their includes. -/
inductive Inlined (tree : FileTree) (paths : List Path) : List Item → List Item → Prop where
  | nil : Inlined tree paths [] []
  | keep (item : Item) {rest other : List Item} (later : Inlined tree paths rest other) :
      Inlined tree paths (item :: rest) (item :: other)
  | inline {item : Item} {items rest other : List Item}
      (includes : Includes tree paths item items) (later : Inlined tree paths rest other) :
      Inlined tree paths (item :: rest) (items ++ other)

/-- The same, where all of these includes stand inside of blocks. `depth` is the number of
blocks that are open before the lists. -/
inductive InlinedInside (tree : FileTree) (paths : List Path) :
    (depth : Nat) → List Item → List Item → Prop where
  | nil {depth : Nat} : InlinedInside tree paths depth [] []
  | keep (item : Item) {depth : Nat} {rest other : List Item}
      (later : InlinedInside tree paths (depthAfter item depth) rest other) :
      InlinedInside tree paths depth (item :: rest) (item :: other)
  | inline {depth : Nat} {item : Item} {items rest other : List Item}
      (includes : Includes tree paths item items)
      (later : InlinedInside tree paths (depth + 1) rest other) :
      InlinedInside tree paths (depth + 1) (item :: rest) (items ++ other)

/-- Two results that fail alike, or succeed with related values. -/
inductive Alike {First Second : Type} (related : First → Second → Prop) :
    Except Diagnostic First → Except Diagnostic Second → Prop where
  | failed (diagnostic : Diagnostic) : Alike related (.error diagnostic) (.error diagnostic)
  | done {first : First} {second : Second} (both : related first second) :
      Alike related (.ok first) (.ok second)

theorem Alike.map {First Second Third Fourth : Type} {related : First → Second → Prop}
    {other : Third → Fourth → Prop} {f : First → Third} {g : Second → Fourth}
    {first : Except Diagnostic First} {second : Except Diagnostic Second}
    (alike : Alike related first second)
    (each : ∀ left right, related left right → other (f left) (g right)) :
    Alike other (first.map f) (second.map g) := by
  cases alike with
  | failed diagnostic => exact .failed diagnostic
  | done both => exact .done (each _ _ both)

/-- The same for two runs, which also end with one table. The includes that were looked up may
differ. -/
inductive SameRun {First Second : Type} (related : First → Second → Prop) :
    Except Diagnostic First × Progress → Except Diagnostic Second × Progress → Prop where
  | failed (diagnostic : Diagnostic) {left right : Progress} (tables : left.table = right.table) :
      SameRun related (.error diagnostic, left) (.error diagnostic, right)
  | done {first : First} {second : Second} {left right : Progress} (both : related first second)
      (tables : left.table = right.table) : SameRun related (.ok first, left) (.ok second, right)

theorem SameRun.map {Value : Type} {first second : Except Diagnostic Value × Progress}
    (same : SameRun Eq first second) (f : Value → Value) :
    SameRun Eq (first.1.map f, first.2) (second.1.map f, second.2) := by
  cases same with
  | failed diagnostic tables => exact .failed diagnostic tables
  | done both tables => exact .done (congrArg f both) tables

theorem SameRun.eq {Value : Type} {first second : Except Diagnostic Value × Progress}
    (same : SameRun Eq first second) :
    first.1 = second.1 ∧ first.2.table = second.2.table := by
  cases same with
  | failed diagnostic tables => exact ⟨rfl, tables⟩
  | done both tables => exact ⟨congrArg Except.ok both, tables⟩

variable {tree : FileTree} {paths : List Path}

theorem Item.directive_of_is_include {item : Item} (isInclude : item.isInclude = true) :
    ∃ name, item.directive = some (.includeFile name) := by
  unfold Item.isInclude at isInclude
  split at isInclude
  · next name directive => exact ⟨name, directive⟩
  · cases isInclude

namespace Includes

variable {item : Item} {items : List Item}

theorem inert (includes : Includes tree paths item items) : item.isInert = true := by
  obtain ⟨name, directive, -⟩ := includes.reads
  unfold Item.isInert
  rw [directive]

/-- An included file has no include of its own. -/
theorem plain (includes : Includes tree paths item items) :
    ∀ inner ∈ items, inner.isInclude = false := by
  obtain ⟨name, -, read⟩ := includes.reads
  intro inner member
  have none := List.countP_eq_zero.mp (include_count_included_items read) inner member
  simpa using none

end Includes

theorem InlinedInside.append (items : List Item) {depth : Nat} {first second : List Item}
    (inside : InlinedInside tree paths (depthThrough items depth) first second) :
    InlinedInside tree paths depth (items ++ first) (items ++ second) := by
  induction items generalizing depth with
  | nil => exact inside
  | cons item items induction => exact .keep item (induction inside)

/-- Replacing includes: an include that is left stands inside of a block. The blocks that are
open are at least those that the replacement counts, which does not look into files. -/
theorem splice_inlined {first second : List Item} (inlined : Inlined tree paths first second)
    {counted depth : Nat} (more : counted ≤ depth) :
    Alike (InlinedInside tree paths depth) (splice tree paths first counted).1
      (splice tree paths second counted).1 := by
  induction inlined generalizing counted depth with
  | nil => exact .done .nil
  | @keep item rest other _ induction =>
      by_cases stays : item.isInclude = false ∨ 0 < counted
      · rw [splice_other _ _ stays, splice_other _ _ stays]
        apply (induction (depth_after_mono item more)).map
        intro left right inside
        exact .keep item inside
      · obtain ⟨isInclude, top⟩ := not_or.mp stays
        obtain rfl : counted = 0 := by omega
        obtain ⟨name, directive⟩ := Item.directive_of_is_include (Bool.not_eq_false _ ▸ isInclude)
        rw [splice_include _ _ directive, splice_include _ _ directive]
        cases includedItems tree paths name item.line.location with
        | error diagnostic => exact .failed diagnostic
        | ok included =>
            apply (induction (Nat.zero_le (depthThrough included depth))).map
            intro left right inside
            exact inside.append included
  | @inline item items rest other includes _ induction =>
      have through (depth : Nat) : depthThrough items depth = depth :=
        depth_through_enclosed includes.enclosed depth
      rw [splice_append _ _ includes.plain]
      cases counted with
      | zero =>
          obtain ⟨name, directive, read⟩ := includes.reads
          rw [splice_include _ _ directive, read, through 0]
          apply (induction (Nat.zero_le depth)).map
          intro left right inside
          apply InlinedInside.append
          rwa [through depth]
      | succ counted =>
          cases depth with
          | zero => omega
          | succ depth =>
              rw [splice_other _ _ (.inr (Nat.succ_pos counted)),
                depth_after_inert _ includes.inert, through (counted + 1)]
              apply (induction more).map
              intro left right inside
              exact .inline includes inside

/-- Applying definitions: both lists have the same ones outside of blocks. -/
theorem apply_inlined {depth : Nat} {first second : List Item}
    (inside : InlinedInside tree paths depth first second) (table : MacroTable) :
    InlinedInside tree paths depth (applyDefinitions first depth table).1
        (applyDefinitions second depth table).1 ∧
      (applyDefinitions first depth table).2 = (applyDefinitions second depth table).2 := by
  induction inside generalizing table with
  | nil => exact ⟨.nil, rfl⟩
  | @keep item depth rest other _ induction =>
      rcases apply_definitions_cons item depth with ⟨update, level, applied⟩ | kept
      · rw [applied, applied]
        rw [level] at induction
        exact induction (update table)
      · rw [kept, kept]
        obtain ⟨inside, same⟩ := induction table
        exact ⟨.keep item inside, same⟩
  | @inline depth item items rest other includes _ induction =>
      obtain ⟨inside, same⟩ := induction table
      have kept := apply_definitions_enclosed includes.enclosed other depth table
      rw [Nat.add_zero] at kept
      rw [apply_definitions_inside, depth_after_inert _ includes.inert, kept]
      exact ⟨.inline includes inside, same⟩

theorem prepare_inlined {first second : List Item} (inlined : Inlined tree paths first second)
    (left right : Progress) (same : left.table = right.table) :
    SameRun (InlinedInside tree paths 0) ((walker tree paths).prepare first left)
      ((walker tree paths).prepare second right) := by
  have alike := splice_inlined inlined (Nat.le_refl 0)
  change SameRun _ (prepareLevel tree paths first left) (prepareLevel tree paths second right)
  unfold prepareLevel
  match spliced : splice tree paths first 0, spliced' : splice tree paths second 0 with
  | (result, _), (result', _) =>
      rw [spliced, spliced'] at alike
      cases alike with
      | failed diagnostic => exact .failed diagnostic same
      | done inside =>
          obtain ⟨prepared, tables⟩ := apply_inlined inside left.table
          simp only [← same]
          exact .done prepared tables

/-- The branches and what follows a block in two runs. -/
structure PartsInlined (tree : FileTree) (paths : List Path) (first second : Parts) : Prop where
  branch (holds : Bool) : Inlined tree paths (first.branch holds) (second.branch holds)
  after : InlinedInside tree paths 0 first.after second.after

theorem PartsInlined.keep {first second : Parts} (parts : PartsInlined tree paths first second)
    (item : Item) : PartsInlined tree paths (first.keep [item]) (second.keep [item]) where
  branch
    | true => .keep item (parts.branch true)
    | false => parts.branch false
  after := parts.after

theorem PartsInlined.turn {first second : Parts} (parts : PartsInlined tree paths first second) :
    PartsInlined tree paths first.turn second.turn where
  branch
    | true => .nil
    | false => parts.branch true
  after := parts.after

theorem PartsInlined.inline {first second : Parts} (parts : PartsInlined tree paths first second)
    {item : Item} {items : List Item} (includes : Includes tree paths item items) :
    PartsInlined tree paths (first.keep [item]) (second.keep items) where
  branch
    | true => .inline includes (parts.branch true)
    | false => parts.branch false
  after := parts.after

theorem cut_inlined {location : Location} {depth : Nat} {turned : Bool} {first second : List Item}
    (inside : InlinedInside tree paths (depth + 1) first second) :
    Alike (PartsInlined tree paths) (cut location first depth turned)
      (cut location second depth turned) := by
  generalize deeper : depth + 1 = outer at inside
  induction inside generalizing depth turned with
  | nil => exact .failed _
  | @keep item outer rest other later induction =>
      subst deeper
      have kept (inner : Nat) (level : inner + 1 = depthAfter item (depth + 1)) :
          Alike (PartsInlined tree paths)
            ((cut location rest inner turned).map (Parts.keep [item]))
            ((cut location other inner turned).map (Parts.keep [item])) := by
        apply (induction level).map
        intro left right parts
        exact parts.keep item
      rcases item.kind_cases with inert | opens | alternative | ending | ⟨keyword, unsupported⟩
      · rw [cut_inert _ _ _ _ inert, cut_inert _ _ _ _ inert]
        exact kept depth (depth_after_inert _ inert).symm
      · rw [cut_opening _ _ _ _ opens, cut_opening _ _ _ _ opens]
        exact kept (depth + 1) (depth_after_opening _ opens).symm
      · have level := depth_after_alternative (depth + 1) alternative
        cases depth with
        | zero =>
            cases turned with
            | true => simp only [cut, alternative]; exact .failed _
            | false =>
                rw [cut_alternative _ _ alternative, cut_alternative _ _ alternative]
                exact (induction level.symm).map fun _ _ parts => parts.turn
        | succ inner =>
            rw [cut_inner_alternative _ _ _ _ alternative,
              cut_inner_alternative _ _ _ _ alternative]
            exact kept (inner + 1) level.symm
      · have level := depth_after_end (depth + 1) ending
        cases depth with
        | zero =>
            rw [cut_end _ _ _ ending, cut_end _ _ _ ending]
            rw [level] at later
            exact .done ⟨fun holds => by cases holds <;> exact .nil, later⟩
        | succ inner =>
            rw [cut_inner_end _ _ _ _ ending, cut_inner_end _ _ _ _ ending]
            exact kept inner level.symm
      · simp only [cut, unsupported]
        exact .failed _
  | @inline outer item items rest other includes _ induction =>
      obtain rfl : depth = outer := by omega
      have passed := cut_enclosed includes.enclosed location other depth turned
      rw [Nat.add_zero] at passed
      rw [cut_inert _ _ _ _ includes.inert, passed]
      apply (induction rfl).map
      intro left right parts
      exact parts.inline includes

theorem walk_inlined (first : List Item) (left : Progress) :
    ∀ second right, InlinedInside tree paths 0 first second → left.table = right.table →
      SameRun Eq ((walker tree paths).walk first left)
        ((walker tree paths).walk second right) := by
  induction first, left using (walker tree paths).walk_induction with
  | nil state =>
      intro second right inside same
      cases inside
      rw [Walker.walk_nil, Walker.walk_nil]
      exact .done rfl same
  | content item rest state role induction =>
      intro second right inside same
      cases inside with | keep _ later =>
      rw [depth_after_straight _ (.inl role)] at later
      have emitted : (walker tree paths).emit item.line state =
          (walker tree paths).emit item.line right := congrArg (emitLine item.line) same
      rw [Walker.walk_content _ role, Walker.walk_content _ role, emitted]
      exact (induction _ _ later same).map _
  | passed item rest state role induction =>
      intro second right inside same
      cases inside with | keep _ later =>
      rw [depth_after_straight _ (.inr (.inl role))] at later
      rw [Walker.walk_passed _ role, Walker.walk_passed _ role]
      exact (induction _ _ later same).map _
  | consumed item rest state role induction =>
      intro second right inside same
      cases inside with | keep _ later =>
      rw [depth_after_straight _ (.inr (.inr role))] at later
      rw [Walker.walk_consumed _ role, Walker.walk_consumed _ role]
      exact induction _ _ later same
  | misplaced item rest state fault role =>
      intro second right inside same
      cases inside with | keep _ later =>
      rw [Walker.walk_misplaced _ role, Walker.walk_misplaced _ role]
      exact .failed _ same
  | block item rest state name wantsDefined role induction =>
      intro second right inside same
      cases inside with | @keep _ _ _ other later =>
      have test : (walker tree paths).isDefined state name =
          (walker tree paths).isDefined right name :=
        congrArg (fun table => MacroTable.isDefined table name) same
      rw [depth_after_opening _ (Item.opens_block_of_condition role)] at later
      rw [Walker.walk_block _ role, Walker.walk_block _ role, ← test]
      -- In each of the three steps the two runs fail alike or go on with related values.
      have cutting : Alike (PartsInlined tree paths) (cut item.line.location rest 0 false)
          (cut item.line.location other 0 false) := cut_inlined later
      generalize found : cut item.line.location rest 0 false = blocks,
        cut item.line.location other 0 false = blocks' at cutting ⊢
      cases cutting with
      | failed diagnostic => exact .failed diagnostic same
      | @done parts others both =>
          generalize chosen : ((walker tree paths).isDefined state name == wantsDefined) = holds
          rw [chosen] at induction
          have preparation := prepare_inlined (both.branch holds) state right same
          simp only
          generalize prepared : (walker tree paths).prepare (parts.branch holds) state = levels,
            (walker tree paths).prepare (others.branch holds) right = levels' at preparation ⊢
          cases preparation with
          | failed diagnostic tables => exact .failed diagnostic tables
          | @done level level' progress progress' inside tables =>
              obtain ⟨inner, behind⟩ := induction parts level progress found prepared
              have branch := inner level' progress' inside tables
              simp only
              generalize walked : (walker tree paths).walk level progress = runs,
                (walker tree paths).walk level' progress' = runs' at branch ⊢
              cases branch with
              | failed diagnostic tables => exact .failed diagnostic tables
              | @done lines _ final final' equal tables =>
                  cases equal
                  exact (behind lines final walked _ _ both.after tables).map _

/-! From lines to items. -/

theorem Item.of_lines_append (first second : List Line) :
    Item.ofLines (first ++ second) =
      (Item.ofLines first).bind fun items => (Item.ofLines second).map (items ++ ·) := by
  unfold Item.ofLines
  rw [List.mapM_append]
  cases List.mapM Item.ofLine first <;> cases List.mapM Item.ofLine second <;> rfl

theorem Inlined.refl (items : List Item) : Inlined tree paths items items := by
  induction items with
  | nil => exact .nil
  | cons item rest induction => exact .keep item induction

theorem Inlined.append (items : List Item) {first second : List Item}
    (inlined : Inlined tree paths first second) :
    Inlined tree paths (items ++ first) (items ++ second) := by
  induction items with
  | nil => exact inlined
  | cons item rest induction => exact .keep item induction

theorem included_item_of_plain {name : String} {line : Line} {item : Item}
    (classified : Item.ofLine line = .ok item) (plain : item.isInclude = false) :
    includedItem name line = .ok item := by
  unfold includedItem
  rw [classified]
  simp only [bind, Except.bind]
  split
  · next directive => simp [Item.isInclude, directive] at plain
  · rfl

/-- Without includes, the lines of an included file are classified like any others. -/
theorem each_included {name : String} {inner : List Line} {items : List Item}
    (classified : Item.ofLines inner = .ok items) (plain : ∀ item ∈ items, item.isInclude = false) :
    inner.mapM (includedItem name) = .ok items := by
  induction inner generalizing items with
  | nil => exact classified
  | cons line rest induction =>
      unfold Item.ofLines at classified induction
      rw [List.mapM_cons] at classified ⊢
      cases first : Item.ofLine line with
      | error _ => rw [first] at classified; cases classified
      | ok item =>
          cases later : rest.mapM Item.ofLine with
          | error _ => rw [first, later] at classified; cases classified
          | ok others =>
              rw [first, later] at classified
              obtain rfl : item :: others = items := Except.ok.inj classified
              have tail := induction later fun other member =>
                plain other (List.mem_cons_of_mem item member)
              rw [included_item_of_plain first (plain item List.mem_cons_self), tail]
              rfl

theorem included_of_resolved {name : String} {location : Location} {file : Path}
    {inner : List Line} {items : List Item}
    (resolved : resolveInclude tree paths name ⟨location.file⟩ = some file)
    (read : tree.readLines file = .ok inner) (classified : Item.ofLines inner = .ok items)
    (plain : ∀ item ∈ items, item.isInclude = false) :
    includedItems tree paths name location = .ok items := by
  unfold includedItems loadInclude
  rw [resolved]
  simp only [read]
  exact each_included classified plain

/-- The two sources are classified alike. -/
theorem of_lines_inlined {line : Line} {item : Item} {inner : List Line} {items : List Item}
    (own : Item.ofLine line = .ok item) (classified : Item.ofLines inner = .ok items)
    (includes : Includes tree paths item items) (before after : List Line) :
    Alike (Inlined tree paths) (Item.ofLines (before ++ line :: after))
      (Item.ofLines (before ++ (inner ++ after))) := by
  have single : Item.ofLines [line] = .ok [item] := by
    unfold Item.ofLines
    rw [List.mapM_cons, own]
    rfl
  rw [← List.singleton_append, Item.of_lines_append, Item.of_lines_append, Item.of_lines_append,
    Item.of_lines_append, single, classified]
  cases Item.ofLines before with
  | error diagnostic => exact .failed diagnostic
  | ok first =>
      cases Item.ofLines after with
      | error diagnostic => exact .failed diagnostic
      | ok last => exact .done (.append first (.inline includes (.refl last)))

/-- An include behaves like the lines of its file, whatever stands around it: the run has the
same lines or the same failure, and ends with the same table. The file has no include, no
condition on an expression and no malformed directive, and closes its own blocks. -/
theorem include_behaves_like_its_lines (tree : FileTree) (paths : List Path)
    (before after : List Line) (line : Line) (name : String) (file : Path) (inner : List Line)
    (items : List Item) (seeds : MacroTable)
    (includes : Directive.classify line.text = .ok (some (.includeFile name)))
    (resolved : resolveInclude tree paths name ⟨line.location.file⟩ = some file)
    (read : tree.readLines file = .ok inner)
    (classified : Item.ofLines inner = .ok items)
    (plain : ∀ item ∈ items, item.isInclude = false)
    (enclosed : Enclosed 0 items) :
    (preprocess tree paths (before ++ line :: after) seeds).1 =
        (preprocess tree paths (before ++ (inner ++ after)) seeds).1 ∧
      (preprocess tree paths (before ++ line :: after) seeds).2.table =
        (preprocess tree paths (before ++ (inner ++ after)) seeds).2.table := by
  have own : Item.ofLine line = .ok ⟨line, some (.includeFile name)⟩ := by
    unfold Item.ofLine
    rw [includes]
  have loaded : includedItems tree paths name line.location = .ok items :=
    included_of_resolved resolved read classified plain
  have written : Includes tree paths ⟨line, some (.includeFile name)⟩ items :=
    ⟨⟨name, rfl, loaded⟩, enclosed⟩
  have alike := of_lines_inlined own classified written before after
  apply SameRun.eq
  unfold preprocess
  match Item.ofLines (before ++ line :: after), Item.ofLines (before ++ (inner ++ after)),
      alike with
  | _, _, .failed diagnostic => exact .failed diagnostic rfl
  | .ok first, .ok second, .done inlined =>
      have preparation := prepare_inlined inlined ⟨seeds, []⟩ ⟨seeds, []⟩ rfl
      change SameRun _ (prepareLevel tree paths first _) (prepareLevel tree paths second _)
        at preparation
      simp only
      match prepareLevel tree paths first ⟨seeds, []⟩, prepareLevel tree paths second ⟨seeds, []⟩,
          preparation with
      | _, _, .failed diagnostic tables => exact .failed diagnostic tables
      | (.ok level, progress), (.ok level', progress'), .done inside tables =>
          exact walk_inlined level progress level' progress' inside tables

/-- A header that defines a name unless another one is defined. -/
def headerTree : FileTree :=
  { FileTree.empty [] with nodes :=
    [(["kinds.h"], .file "#ifndef SINGLE\n#define KIND 8\n#endif\n".toUTF8)] }

def headerItems : List Item :=
  [⟨⟨"#ifndef SINGLE", ⟨"kinds.h", 1⟩⟩, some (.ifUndefined "SINGLE")⟩,
    ⟨⟨"#define KIND 8", ⟨"kinds.h", 2⟩⟩, some (.define "KIND" (some "8"))⟩,
    ⟨⟨"#endif", ⟨"kinds.h", 3⟩⟩, some .endIf⟩]

/-- The include of the header stands in a branch of a block. -/
def headerSource (chosen : List Line) : List Line :=
  ⟨"#ifdef KINDS", ⟨"a.F90", 1⟩⟩ :: (chosen ++
    [⟨"#endif", ⟨"a.F90", 3⟩⟩, ⟨"real(KIND) :: x", ⟨"a.F90", 4⟩⟩])

/-- A header in the working directory is found by the sources there. -/
theorem resolve_beside {name : String} {includer : Path} (here : includer.parent = some ⟨""⟩)
    (joined : Path.join ⟨""⟩ name = ⟨name⟩) (file : tree.isFile ⟨name⟩ = true) :
    resolveInclude tree paths name includer = some ⟨name⟩ := by
  unfold resolveInclude
  rw [here, ← joined]
  rw [← joined] at file
  exact List.find?_cons_of_pos file

theorem header_resolved :
    resolveInclude headerTree [] "kinds.h" ⟨"a.F90"⟩ = some ⟨"kinds.h"⟩ :=
  resolve_beside (by decide +kernel) rfl (by cbv)

theorem header_in_a_branch_behaves_like_its_lines :
    let seeds := MacroTable.empty.define "KINDS" none
    (preprocess headerTree [] (headerSource [⟨"#include 'kinds.h'", ⟨"a.F90", 2⟩⟩]) seeds).1 =
        (preprocess headerTree [] (headerSource (headerItems.map (·.line))) seeds).1 ∧
      (preprocess headerTree [] (headerSource [⟨"#include 'kinds.h'", ⟨"a.F90", 2⟩⟩])
          seeds).2.table =
        (preprocess headerTree [] (headerSource (headerItems.map (·.line))) seeds).2.table := by
  apply include_behaves_like_its_lines headerTree [] [⟨"#ifdef KINDS", ⟨"a.F90", 1⟩⟩]
    [⟨"#endif", ⟨"a.F90", 3⟩⟩, ⟨"real(KIND) :: x", ⟨"a.F90", 4⟩⟩]
    ⟨"#include 'kinds.h'", ⟨"a.F90", 2⟩⟩ "kinds.h" ⟨"kinds.h"⟩ (headerItems.map (·.line))
    headerItems
  · cbv
  · exact header_resolved
  · cbv
  · cbv
  · decide
  · exact .opening rfl (.inert rfl (.ending rfl .nil))

end FortranDeps.Preprocess

import FortranDeps.Proofs.Files.Rereading
import FortranDeps.Proofs.Preprocess.Agreement
import FortranDeps.Proofs.Preprocess.Idempotence
import FortranDeps.Proofs.Preprocess.Inlining
import FortranDeps.Proofs.Preprocess.Origins

/-!
What becomes of every line. The branches of a block are cut out of their level, prepared and walked
on their own, and what they give stands where the block stood. So the output of a run keeps the
order of the source, with the lines of included files in the places of the includes; a line of it is
never given twice, and content outside of blocks is never lost.
-/

namespace FortranDeps

/-- The line of a source that a diagnostic is about, if it names one. -/
def Diagnostic.location? : Diagnostic → Option Location
  | includeNotFound location _ | malformedDirective location _ => some location
  | _ => none

namespace Preprocess

open Block

/-! Includes that are replaced. -/

/-- Items with some of their includes replaced by the items of the files, and the locations of
these includes. -/
inductive Unfolds (tree : FileTree) (paths : List Path) :
    List Item → List Location → List Item → Prop where
  | nil : Unfolds tree paths [] [] []
  | keep (item : Item) {items full : List Item} {loaded : List Location}
      (later : Unfolds tree paths items loaded full) :
      Unfolds tree paths (item :: items) loaded (item :: full)
  | load {item : Item} {name : String} {included items full : List Item} {loaded : List Location}
      (directive : item.directive = some (.includeFile name))
      (read : includedItems tree paths name item.line.location = .ok included)
      (later : Unfolds tree paths items loaded full) :
      Unfolds tree paths (item :: items) (item.line.location :: loaded) (included ++ full)

namespace Unfolds

variable {tree : FileTree} {paths : List Path}

theorem refl (items : List Item) : Unfolds tree paths items [] items := by
  induction items with
  | nil => exact .nil
  | cons item rest induction => exact .keep item induction

theorem append {first second firstFull secondFull : List Item}
    {firstLoaded secondLoaded : List Location}
    (left : Unfolds tree paths first firstLoaded firstFull)
    (right : Unfolds tree paths second secondLoaded secondFull) :
    Unfolds tree paths (first ++ second) (firstLoaded ++ secondLoaded)
      (firstFull ++ secondFull) := by
  induction left with
  | nil => exact right
  | keep item _ induction => exact .keep item induction
  | load directive read _ induction =>
      rw [List.append_assoc]
      exact .load directive read induction

/-- Items without includes are kept. -/
theorem behind {first rest full : List Item} {loaded : List Location}
    (plain : ∀ item ∈ first, item.isInclude = false)
    (unfolds : Unfolds tree paths (first ++ rest) loaded full) :
    ∃ tail, full = first ++ tail ∧ Unfolds tree paths rest loaded tail := by
  induction first generalizing full with
  | nil => exact ⟨full, rfl, unfolds⟩
  | cons item first induction =>
      obtain ⟨own, others⟩ := List.forall_mem_cons.mp plain
      cases unfolds with
      | keep _ later =>
          obtain ⟨tail, rfl, behind⟩ := induction others later
          exact ⟨tail, rfl, behind⟩
      | load directive _ _ =>
          rw [Item.is_include_of_directive directive] at own
          cases own

end Unfolds

/-- What is unfolded behind a splice can be unfolded at once. -/
theorem unfolds_splice {tree : FileTree} {paths : List Path} {items spliced full : List Item}
    {depth : Nat} {loaded : List Location}
    (done : (splice tree paths items depth).1 = .ok spliced)
    (unfolds : Unfolds tree paths spliced loaded full) :
    ∃ all, Unfolds tree paths items all full ∧
      all.Perm ((splice tree paths items depth).2 ++ loaded) := by
  fun_induction splice tree paths items depth generalizing spliced full loaded with
  | case1 =>
      cases done
      exact ⟨loaded, unfolds, .refl _⟩
  | case2 => cases done
  | case3 item rest name directive included read later looked result induction =>
      rw [result] at induction
      obtain ⟨tail, rfl, rfl⟩ := map_eq_ok.mp done
      obtain ⟨full, rfl, behind⟩ := unfolds.behind (included_items_plain read)
      obtain ⟨all, whole, same⟩ := induction rfl behind
      exact ⟨item.line.location :: all, .load directive read whole, same.cons _⟩
  | case4 item rest depth later looked result outside induction =>
      obtain ⟨tail, found, rfl⟩ := map_eq_ok.mp done
      cases unfolds with
      | keep _ behind =>
          obtain ⟨all, whole, same⟩ := induction found behind
          exact ⟨all, .keep item whole, same⟩
      | load directive read behind =>
          obtain ⟨all, whole, same⟩ := induction found behind
          exact ⟨_, .load directive read whole, (same.cons _).trans List.perm_middle.symm⟩

/-! Items that are given. -/

/-- Some of the items, in a place where `depth` blocks are open that the items close: no directive
of a block is among them, and outside of all blocks no content is left out. -/
inductive Selects : (depth : Nat) → (items sources : List Item) → Prop where
  | nil : Selects 0 [] []
  | given {depth : Nat} {item : Item} {rest sources : List Item} (inert : item.isInert = true)
      (later : Selects depth rest sources) : Selects depth (item :: rest) (item :: sources)
  | withheld {depth : Nat} {item : Item} {rest sources : List Item} (inert : item.isInert = true)
      (inside : item.directive = none → 0 < depth) (later : Selects depth rest sources) :
      Selects depth (item :: rest) sources
  | opening {depth : Nat} {item : Item} {rest sources : List Item}
      (opens : item.opensBlock = true) (later : Selects (depth + 1) rest sources) :
      Selects depth (item :: rest) sources
  | alternative {depth : Nat} {item : Item} {rest sources : List Item}
      (directive : item.directive = some .otherwise) (later : Selects (depth + 1) rest sources) :
      Selects (depth + 1) (item :: rest) sources
  | ending {depth : Nat} {item : Item} {rest sources : List Item}
      (directive : item.directive = some .endIf) (later : Selects depth rest sources) :
      Selects (depth + 1) (item :: rest) sources

theorem Block.Enclosed.unique {first second : Nat} {items : List Item}
    (one : Enclosed first items) (other : Enclosed second items) : first = second := by
  have left := depth_through_enclosed one second
  have right := depth_through_enclosed other first
  rw [Nat.add_comm, right] at left
  exact left

namespace Selects

theorem sublist {depth : Nat} {items sources : List Item} (selects : Selects depth items sources) :
    sources.Sublist items := by
  induction selects with
  | nil => exact .slnil
  | given _ _ induction => exact induction.cons_cons _
  | withheld _ _ _ induction | opening _ _ induction | alternative _ _ induction
  | ending _ _ induction => exact induction.cons _

theorem enclosed {depth : Nat} {items sources : List Item}
    (selects : Selects depth items sources) : Enclosed depth items := by
  induction selects with
  | nil => exact .nil
  | given inert _ induction | withheld inert _ _ induction => exact .inert inert induction
  | opening opens _ induction => exact .opening opens induction
  | alternative directive _ induction => exact .alternative directive induction
  | ending directive _ induction => exact .ending directive induction

theorem append {inner outer : Nat} {first second left right : List Item}
    (inside : Selects inner first left) (around : Selects outer second right) :
    Selects (outer + inner) (first ++ second) (left ++ right) := by
  induction inside with
  | nil => exact around
  | given inert _ induction => exact .given inert induction
  | withheld inert inside _ induction =>
      exact .withheld inert (fun content => Nat.add_pos_right _ (inside content)) induction
  | opening opens _ induction => exact .opening opens induction
  | alternative directive _ induction => exact .alternative directive induction
  | ending directive _ induction => exact .ending directive induction

/-- Inside of a block all items may be left out. -/
theorem discard {inner outer : Nat} {items rest sources : List Item}
    (enclosed : Enclosed inner items) (behind : Selects (outer + 1) rest sources) :
    Selects (outer + 1 + inner) (items ++ rest) sources := by
  induction enclosed with
  | nil => exact behind
  | inert inert _ induction => exact .withheld inert (fun _ => by omega) induction
  | opening opens _ induction => exact .opening opens induction
  | alternative directive _ induction => exact .alternative directive induction
  | ending directive _ induction => exact .ending directive induction

theorem replace_behind (first : List Item) {rest other : List Item}
    (richer : ∀ depth sources, Selects depth rest sources → Selects depth other sources)
    {depth : Nat} {sources : List Item} (selects : Selects depth (first ++ rest) sources) :
    Selects depth (first ++ other) sources := by
  induction first generalizing depth sources with
  | nil => exact richer depth sources selects
  | cons item first induction =>
      cases selects with
      | given inert later => exact .given inert (induction later)
      | withheld inert inside later => exact .withheld inert inside (induction later)
      | opening opens later => exact .opening opens (induction later)
      | alternative directive later => exact .alternative directive (induction later)
      | ending directive later => exact .ending directive (induction later)

theorem behind {before after : List Item} {depth : Nat} {sources : List Item}
    (selects : Selects depth (before ++ after) sources) :
    ∃ inner front back, sources = front ++ back ∧ front.Sublist before ∧
      Selects inner after back := by
  induction before generalizing depth sources with
  | nil => exact ⟨depth, [], sources, rfl, .slnil, selects⟩
  | cons item before induction =>
      cases selects with
      | given _ later =>
          obtain ⟨inner, front, back, rfl, inFront, behind⟩ := induction later
          exact ⟨inner, item :: front, back, rfl, inFront.cons_cons item, behind⟩
      | withheld _ _ later | opening _ later | alternative _ later | ending _ later =>
          obtain ⟨inner, front, back, same, inFront, behind⟩ := induction later
          exact ⟨inner, front, back, same, inFront.cons item, behind⟩

/-- Content with as many ends of blocks as openings before it is selected, at its own place. -/
theorem outside {before after sources : List Item} {item : Item}
    (selects : Selects 0 (before ++ item :: after) sources) (content : item.directive = none)
    (closed : before.countP Item.opensBlock = before.countP Item.closesBlock) :
    ∃ front back, sources = front ++ item :: back ∧ front.Sublist before ∧
      back.Sublist after := by
  obtain ⟨inner, front, back, rfl, inFront, behind⟩ := selects.behind
  obtain ⟨depth, enclosed, count⟩ := selects.enclosed.behind
  obtain rfl : inner = depth := behind.enclosed.unique enclosed
  have none : inner = 0 := by omega
  cases behind with
  | given _ later => exact ⟨front, _, rfl, inFront, later.sublist⟩
  | withheld _ inside _ => exact absurd (inside content) (by omega)
  | opening opens _ => simp [Item.opensBlock, content] at opens
  | alternative directive _ | ending directive _ => simp [content] at directive

end Selects

/-- Definitions that have been dropped can be put back. -/
theorem unfolds_apply_definitions {tree : FileTree} {paths : List Path} {items full : List Item}
    {loaded : List Location} {depth : Nat} {table : MacroTable}
    (unfolds : Unfolds tree paths (applyDefinitions items depth table).1 loaded full) :
    ∃ whole, Unfolds tree paths items loaded whole ∧
      ∀ depth sources, Selects depth full sources → Selects depth whole sources := by
  induction items generalizing full loaded depth table with
  | nil => exact ⟨full, unfolds, fun _ _ => id⟩
  | cons item rest induction =>
      have kept {later : Nat} {table : MacroTable}
          (unfolds : Unfolds tree paths (item :: (applyDefinitions rest later table).1) loaded
            full) :
          ∃ whole, Unfolds tree paths (item :: rest) loaded whole ∧
            ∀ depth sources, Selects depth full sources → Selects depth whole sources := by
        cases unfolds with
        | keep _ behind =>
            obtain ⟨whole, all, richer⟩ := induction behind
            exact ⟨item :: whole, .keep item all, fun _ _ => Selects.replace_behind [item] richer⟩
        | @load _ name included _ _ _ directive read behind =>
            obtain ⟨whole, all, richer⟩ := induction behind
            exact ⟨included ++ whole, .load directive read all,
              fun _ _ => Selects.replace_behind included richer⟩
      by_cases consumed : item.role = .consumed
      · rcases apply_definitions_cons item depth with ⟨update, -, applied⟩ | same
        · rw [applied] at unfolds
          obtain ⟨whole, all, richer⟩ := induction unfolds
          have inert := Item.inert_of_straight (.inr (.inr consumed))
          refine ⟨item :: whole, .keep item all, ?_⟩
          intro depth sources selects
          refine .withheld inert ?_ (richer depth sources selects)
          intro content
          simp [Item.role, content] at consumed
        · rw [same] at unfolds
          exact kept unfolds
      · rw [apply_definitions_other consumed] at unfolds
        exact kept unfolds

theorem unfolds_prepare_level {tree : FileTree} {paths : List Path} {items level full : List Item}
    {progress after : Progress} {loaded : List Location}
    (done : prepareLevel tree paths items progress = (.ok level, after))
    (unfolds : Unfolds tree paths level loaded full) :
    ∃ all whole, Unfolds tree paths items all whole ∧
      (∀ depth sources, Selects depth full sources → Selects depth whole sources) ∧
      (progress.loaded ++ all).Perm (after.loaded ++ loaded) := by
  unfold prepareLevel at done
  split at done
  · cases done
  · next spliced looked found =>
      cases done
      obtain ⟨whole, behind, richer⟩ := unfolds_apply_definitions unfolds
      obtain ⟨all, atOnce, same⟩ := unfolds_splice (congrArg Prod.fst found) behind
      rw [found] at same
      refine ⟨all, whole, atOnce, richer, ?_⟩
      rw [List.append_assoc]
      exact same.append_left _

/-! The output of a walk. -/

/-- What a run may make of a line: an unknown directive stays as it is, and content is expanded
with some table. -/
def Gives (item : Item) (line : Line) : Prop :=
  line.location = item.line.location ∧
    match item.directive with
    | some (.unknown _) => line.text = item.line.text
    | none => ∃ table : MacroTable,
        line.text = table.expand item.line.text (Units.unitNameSpan item.line.text)
    | some _ => False

/-- An output that is accounted for by the items of a level, and by the includes that were looked
up meanwhile. -/
def Accounted (tree : FileTree) (paths : List Path) (items : List Item)
    (earlier later : List Location) (output : List Line) : Prop :=
  ∃ loaded full sources, Unfolds tree paths items loaded full ∧
    (earlier ++ loaded).Perm later ∧ Selects 0 full sources ∧ List.Forall₂ Gives sources output

theorem selects_block {tree : FileTree} {paths : List Path} {parts : Parts} {items : List Item}
    (shaped : Shaped 0 parts items) (holds : Bool) {inside behind : List Location}
    {branch after left right : List Item}
    (inBranch : Unfolds tree paths (parts.branch holds) inside branch)
    (fromBranch : Selects 0 branch left) (inAfter : Unfolds tree paths parts.after behind after)
    (fromAfter : Selects 0 after right) :
    ∃ full, Unfolds tree paths items (inside ++ behind) full ∧ Selects 1 full (left ++ right) := by
  cases shaped with
  | @single first _ ending inFirst closes =>
      have atEnd : Selects 1 (ending :: after) right := .ending closes fromAfter
      cases holds with
      | true => exact ⟨_, inBranch.append (.keep ending inAfter), fromBranch.append atEnd⟩
      | false =>
          cases inBranch
          cases fromBranch
          exact ⟨_, (Unfolds.refl first).append (.keep ending inAfter), .discard inFirst atEnd⟩
  | @double first second _ middle ending inFirst turns inSecond closes =>
      have atEnd : Selects 1 (ending :: after) right := .ending closes fromAfter
      cases holds with
      | true =>
          have rest := (Unfolds.refl second).append (.keep ending inAfter)
          have fromMiddle : Selects 1 (middle :: (second ++ ending :: after)) right :=
            .alternative turns (.discard inSecond atEnd)
          exact ⟨_, inBranch.append (.keep middle rest), fromBranch.append fromMiddle⟩
      | false =>
          have rest := Unfolds.keep middle (inBranch.append (.keep ending inAfter))
          have fromMiddle : Selects 1 (middle :: (branch ++ ending :: after)) (left ++ right) :=
            .alternative turns (fromBranch.append atEnd)
          exact ⟨_, (Unfolds.refl first).append rest, .discard inFirst fromMiddle⟩

theorem accounted_of_run {tree : FileTree} {paths : List Path} {items : List Item}
    {progress : Progress} {result : Except Diagnostic (List Line) × Progress}
    (run : (walker tree paths).Run items progress result) {output : List Line}
    (done : result.1 = .ok output) :
    Accounted tree paths items progress.loaded result.2.loaded output := by
  induction run generalizing output with
  | nil state =>
      cases done
      exact ⟨[], [], [], .nil, by simp, .nil, .nil⟩
  | @straight item rest state result roles _ induction =>
      obtain ⟨lines, found, rfl⟩ := map_eq_ok.mp done
      obtain ⟨loaded, full, sources, unfolds, same, selects, gives⟩ := induction found
      have inert := Item.inert_of_straight roles
      rcases roles with role | role | role
      · have own : Gives item (emitLine item.line state.table) := by
          have directive := Item.role_content_iff.mp role
          refine ⟨rfl, ?_⟩
          rw [directive]
          exact ⟨state.table, rfl⟩
        refine ⟨loaded, item :: full, item :: sources, .keep item unfolds, same,
          .given inert selects, ?_⟩
        rw [Walker.output, role]
        exact .cons own gives
      · have own : Gives item item.line := by
          obtain ⟨keyword, directive⟩ := Item.role_passed_iff.mp role
          refine ⟨rfl, ?_⟩
          rw [directive]
        refine ⟨loaded, item :: full, item :: sources, .keep item unfolds, same,
          .given inert selects, ?_⟩
        rw [Walker.output, role]
        exact .cons own gives
      · have notContent : item.directive = none → 0 < 0 := by
          intro content
          simp [Item.role, content] at role
        refine ⟨loaded, item :: full, sources, .keep item unfolds, same,
          .withheld inert notContent selects, ?_⟩
        rw [Walker.output, role]
        exact gives
  | misplaced | unclosed | refused | failed => cases done
  | @block item rest level state prepared walked name wantsDefined parts inner result role found
      preparation _ _ inside behind =>
      obtain ⟨lines, ended, rfl⟩ := map_eq_ok.mp done
      obtain ⟨within, branch, left, inBranch, sameWithin, fromBranch, givesBranch⟩ := inside rfl
      obtain ⟨later, after, right, inAfter, sameLater, fromAfter, givesAfter⟩ := behind ended
      obtain ⟨all, whole, unfolds, richer, same⟩ := unfolds_prepare_level preparation inBranch
      obtain ⟨full, inBlock, fromBlock⟩ :=
        selects_block (shaped_of_cut found) _ unfolds (richer 0 left fromBranch) inAfter fromAfter
      refine ⟨all ++ later, item :: full, left ++ right, .keep item inBlock, ?_,
        .opening (Item.opens_block_of_condition role) fromBlock,
        List.rel_append givesBranch givesAfter⟩
      have grown : (state.loaded ++ all ++ later).Perm (walked.loaded ++ later) :=
        (same.trans sameWithin).append_right later
      rw [← List.append_assoc]
      exact grown.trans sameLater

/-! The locations of failures. -/

/-- A diagnostic that names no other line than the given ones. -/
def Located (lines : List Line) (diagnostic : Diagnostic) : Prop :=
  ∀ location, diagnostic.location? = some location → ∃ line ∈ lines, line.location = location

theorem located_at {lines : List Line} {line : Line} (member : line ∈ lines)
    (fault : StructureFault) : Located lines (fault.at line.location) := by
  rintro _ ⟨⟩
  exact ⟨line, member, rfl⟩

theorem located_of_of_line {lines : List Line} {line : Line} (member : line ∈ lines)
    {diagnostic : Diagnostic} (failed : Item.ofLine line = .error diagnostic) :
    Located lines diagnostic := by
  unfold Item.ofLine at failed
  split at failed
  · cases failed
  · cases failed
    rintro _ ⟨⟩
    exact ⟨line, member, rfl⟩

theorem located_of_cut {lines : List Line} {opening : Line} (member : opening ∈ lines)
    {items : List Item} (inside : ∀ item ∈ items, item.line ∈ lines) {depth : Nat} {turned : Bool}
    {diagnostic : Diagnostic}
    (failed : cut opening.location items depth turned = .error diagnostic) :
    Located lines diagnostic := by
  fun_induction cut opening.location items depth turned with
  | case1 =>
      cases failed
      exact located_at member _
  | case6 item | case9 item =>
      cases failed
      exact located_at (inside item List.mem_cons_self) _
  | case4 => cases failed
  | case2 _ _ _ _ _ _ induction | case3 _ _ _ _ _ _ induction | case5 _ _ _ _ _ induction
  | case7 _ _ _ _ _ induction | case8 _ _ _ _ _ induction
  | case10 _ _ _ _ _ _ _ _ _ induction =>
      exact induction (List.forall_mem_cons.mp inside).2 (map_eq_error.mp failed)

theorem exists_failed_input {Input Output Fault : Type} {f : Input → Except Fault Output}
    {inputs : List Input} {fault : Fault} (failed : inputs.mapM f = .error fault) :
    ∃ input ∈ inputs, f input = .error fault := by
  induction inputs with
  | nil => cases failed
  | cons input rest induction =>
      rw [List.mapM_cons] at failed
      cases own : f input with
      | error found =>
          rw [own] at failed
          cases failed
          exact ⟨input, List.mem_cons_self, own⟩
      | ok output =>
          cases later : rest.mapM f with
          | error found =>
              rw [own, later] at failed
              cases failed
              obtain ⟨other, member, stopped⟩ := induction later
              exact ⟨other, List.mem_cons_of_mem _ member, stopped⟩
          | ok outputs =>
              rw [own, later] at failed
              cases failed

section Failures

variable {tree : FileTree} {paths : List Path} {lines opened : List Line} {diagnostic : Diagnostic}

theorem located_of_included {outer : Item} (stems : Stems tree paths lines opened outer)
    {name : String} (directive : outer.directive = some (.includeFile name))
    (looked : Opened lines opened [outer.line.location])
    (failed : includedItems tree paths name outer.line.location = .error diagnostic) :
    Located (reachable tree paths lines opened) diagnostic := by
  unfold includedItems at failed
  cases loaded : loadInclude tree paths name outer.line.location with
  | error found =>
      rw [loaded] at failed
      cases failed
      unfold loadInclude FileTree.readLines at loaded
      split at loaded
      · split at loaded
        · cases loaded
        · cases loaded
          rintro _ ⟨⟩
      · cases loaded
        rintro _ ⟨⟩
        exact ⟨outer.line, stems.reached, rfl⟩
  | ok included =>
      rw [loaded] at failed
      obtain ⟨line, member, stopped⟩ := exists_failed_input failed
      have reached := stems.reachable_of_included directive looked loaded member
      unfold includedItem at stopped
      cases read : Item.ofLine line with
      | error found =>
          rw [read] at stopped
          cases stopped
          exact located_of_of_line reached read
      | ok item =>
          rw [read] at stopped
          simp only [bind, Except.bind] at stopped
          split at stopped
          · cases stopped
            exact located_at reached _
          · cases stopped

theorem located_of_splice {items : List Item} {depth : Nat}
    (stem : AllStem tree paths lines opened items)
    (looked : Opened lines opened (splice tree paths items depth).2)
    (failed : (splice tree paths items depth).1 = .error diagnostic) :
    Located (reachable tree paths lines opened) diagnostic := by
  fun_induction splice tree paths items depth with
  | case1 => cases failed
  | case2 item rest name directive found stopped =>
      cases failed
      exact located_of_included (stem item List.mem_cons_self) directive looked stopped
  | case3 item rest name directive included read later loaded result induction =>
      rw [result] at induction
      exact induction (List.forall_mem_cons.mp stem).2 (looked.mono (List.subset_cons_self _ _))
        (map_eq_error.mp failed)
  | case4 item rest depth later loaded result outside induction =>
      exact induction (List.forall_mem_cons.mp stem).2 looked (map_eq_error.mp failed)

theorem located_of_prepare_level {items : List Item} {progress after : Progress}
    (stem : AllStem tree paths lines opened items) (looked : Opened lines opened after.loaded)
    (failed : prepareLevel tree paths items progress = (.error diagnostic, after)) :
    Located (reachable tree paths lines opened) diagnostic := by
  have grown := loaded_prepare_level tree paths items progress
  rw [failed] at grown
  have inside : (splice tree paths items 0).2 ⊆ after.loaded := by
    rw [show after.loaded = _ from grown]
    exact List.subset_append_right _ _
  unfold prepareLevel at failed
  split at failed
  · next spliced =>
      cases failed
      exact located_of_splice stem (looked.mono inside) (congrArg Prod.fst spliced)
  · cases failed

theorem located_of_run {items : List Item} {progress : Progress}
    {result : Except Diagnostic (List Line) × Progress}
    (run : (walker tree paths).Run items progress result)
    (stem : AllStem tree paths lines opened items) (looked : Opened lines opened result.2.loaded)
    (failed : result.1 = .error diagnostic) :
    Located (reachable tree paths lines opened) diagnostic := by
  induction run with
  | nil => cases failed
  | straight _ _ induction =>
      exact induction (List.forall_mem_cons.mp stem).2 looked (map_eq_error.mp failed)
  | misplaced _ _ _ =>
      cases failed
      exact located_at (stem _ List.mem_cons_self).reached _
  | unclosed _ _ found =>
      cases failed
      obtain ⟨own, others⟩ := List.forall_mem_cons.mp stem
      exact located_of_cut own.reached (fun item member => (others item member).reached) found
  | refused _ found preparation =>
      cases failed
      exact located_of_prepare_level (stem.branch found _) looked preparation
  | failed _ found preparation branch inside =>
      have level := all_stem_prepare_level (stem.branch found _)
        (looked.mono (loaded_subset branch)) preparation
      exact inside level looked failed
  | block _ found preparation branch behind _ after =>
      exact after (stem.after found) looked (map_eq_error.mp failed)

end Failures

/-- Every line of the output is accounted for. The lines of the source, with the includes that are
looked up replaced by the lines of their files, make up a list that closes its own blocks; the
output comes from a part of it, in order, line by line, and no content outside of blocks is missing
from that part. A failure that names a line names one of the source or of a file that was looked
up. -/
theorem every_output_line_is_accounted_for (tree : FileTree) (paths : List Path)
    (lines : List Line) (seeds : MacroTable) :
    (∀ output, (preprocess tree paths lines seeds).1 = .ok output →
      ∃ items loaded full sources, Item.ofLines lines = .ok items ∧
        Unfolds tree paths items loaded full ∧
        loaded.Perm (preprocess tree paths lines seeds).2.loaded ∧
        Enclosed 0 full ∧ sources.Sublist full ∧ List.Forall₂ Gives sources output ∧
        ∀ before item after, full = before ++ item :: after → item.directive = none →
          before.countP Item.opensBlock = before.countP Item.closesBlock →
          ∃ front back, sources = front ++ item :: back ∧ front.Sublist before ∧
            back.Sublist after) ∧
    ∀ diagnostic location, (preprocess tree paths lines seeds).1 = .error diagnostic →
      diagnostic.location? = some location →
      ∃ line ∈ reachable tree paths lines
          (lines.filter (·.location ∈ (preprocess tree paths lines seeds).2.loaded)),
        line.location = location := by
  constructor
  · intro output done
    obtain ⟨items, level, progress, read, prepared, run⟩ := preprocess_eq_ok done
    obtain ⟨within, inner, sources, unfolds, sameWithin, selects, gives⟩ :=
      accounted_of_run run done
    obtain ⟨loaded, full, whole, richer, same⟩ := unfolds_prepare_level prepared unfolds
    have selected := richer 0 sources selects
    refine ⟨items, loaded, full, sources, read, whole, same.trans sameWithin, selected.enclosed,
      selected.sublist, gives, ?_⟩
    rintro before item after rfl
    exact selected.outside
  · intro diagnostic location failed
    revert location
    change Located _ diagnostic
    have looked : Opened lines _ (preprocess tree paths lines seeds).2.loaded :=
      fun line member found => List.mem_filter.mpr ⟨member, decide_eq_true found⟩
    cases read : Item.ofLines lines with
    | error found =>
        have stopped : preprocess tree paths lines seeds = (.error found, ⟨seeds, []⟩) := by
          unfold preprocess
          rw [read]
        rw [stopped] at failed
        cases failed
        obtain ⟨line, member, stopped⟩ := exists_failed_input read
        exact located_of_of_line (List.mem_append_left _ member) stopped
    | ok items =>
        rcases preprocess_cases tree paths seeds read with
          ⟨found, progress, preparation, stopped⟩ | ⟨level, progress, preparation, run⟩
        · rw [stopped] at failed looked ⊢
          cases failed
          exact located_of_prepare_level (all_stem_of_lines read) looked preparation
        · have stem := all_stem_prepare_level (all_stem_of_lines read)
            (looked.mono (loaded_subset run)) preparation
          exact located_of_run run stem looked failed

/-- A header with a definition and a line of its own, and one with a condition without a name. -/
def limitTree : FileTree :=
  { FileTree.empty [] with nodes :=
    [(["limits.h"], .file "#define WIDTH 8\ninteger :: limit\n".toUTF8),
      (["broken.h"], .file "#ifdef\n".toUTF8)] }

/-- An include, an unknown directive, a block that is left out and a line with a name. -/
def limitItems : List Item :=
  [⟨⟨"#include 'limits.h'", ⟨"a.F90", 1⟩⟩, some (.includeFile "limits.h")⟩,
    ⟨⟨"#pragma once", ⟨"a.F90", 2⟩⟩, some (.unknown "pragma")⟩,
    ⟨⟨"#ifdef MPI", ⟨"a.F90", 3⟩⟩, some (.ifDefined "MPI")⟩,
    ⟨⟨"use mpi", ⟨"a.F90", 4⟩⟩, none⟩,
    ⟨⟨"#endif", ⟨"a.F90", 5⟩⟩, some .endIf⟩,
    ⟨⟨"real(WIDTH) :: x", ⟨"a.F90", 6⟩⟩, none⟩]

def limitOutput : List Line :=
  [⟨"integer :: limit", ⟨"limits.h", 2⟩⟩, ⟨"#pragma once", ⟨"a.F90", 2⟩⟩,
    ⟨"real(8) :: x", ⟨"a.F90", 6⟩⟩]

/-- What the header gives. -/
def limitHeader : List Item :=
  [⟨⟨"#define WIDTH 8", ⟨"limits.h", 1⟩⟩, some (.define "WIDTH" (some "8"))⟩,
    ⟨⟨"integer :: limit", ⟨"limits.h", 2⟩⟩, none⟩]

theorem limits_included :
    includedItems limitTree [] "limits.h" ⟨"a.F90", 1⟩ = .ok limitHeader := by
  have resolved : resolveInclude limitTree [] "limits.h" ⟨"a.F90"⟩ = some ⟨"limits.h"⟩ :=
    resolve_beside (by decide +kernel) rfl (by cbv)
  have found : limitTree.find ⟨"limits.h"⟩ =
      .ok (.file "#define WIDTH 8\ninteger :: limit\n".toUTF8) := by cbv
  have kept : Line.ofText "limits.h" "#define WIDTH 8\ninteger :: limit\n" =
      limitHeader.map (·.line) := by cbv
  have classified : Item.ofLines (limitHeader.map (·.line)) = .ok limitHeader := by cbv
  exact included_of_resolved resolved (FileTree.read_lines_of_find found kept) classified
    (by decide)

theorem limit_items_read : Item.ofLines (limitItems.map (·.line)) = .ok limitItems := by cbv

theorem limit_output :
    preprocess limitTree [] (limitItems.map (·.line)) .empty =
      (.ok limitOutput, ⟨MacroTable.empty.define "WIDTH" (some "8"), [⟨"a.F90", 1⟩]⟩) := by
  have spliced : splice limitTree [] limitItems 0 =
      (.ok (limitHeader ++ limitItems.tail), [⟨"a.F90", 1⟩]) := by
    unfold limitItems
    rw [splice_include limitTree [] rfl, limits_included]
    rfl
  let table := MacroTable.empty.define "WIDTH" (some "8")
  have prepared : prepareLevel limitTree [] limitItems ⟨.empty, []⟩ =
      (.ok (limitHeader.tail ++ limitItems.tail), ⟨table, [⟨"a.F90", 1⟩]⟩) := by
    unfold prepareLevel
    rw [spliced]
    rfl
  unfold preprocess
  rw [limit_items_read]
  simp only [prepared]
  -- The branch of the block is empty, so the walk goes on behind it with the same table.
  have run : (walker limitTree []).Run (limitHeader.tail ++ limitItems.tail)
      ⟨table, [⟨"a.F90", 1⟩]⟩ _ :=
    .straight (.inl rfl) <| .straight (.inr (.inl rfl)) <| .block rfl rfl rfl (.nil _) <|
      .straight (.inl rfl) (.nil _)
  rw [run.walk_eq]
  decide +kernel

def brokenInclude : Item :=
  ⟨⟨"#include 'broken.h'", ⟨"a.F90", 1⟩⟩, some (.includeFile "broken.h")⟩

theorem broken_header_fails :
    preprocess limitTree [] [brokenInclude.line] .empty =
      (.error (.malformedDirective ⟨"broken.h", 1⟩ (Directive.Fault.missingName "ifdef").message),
        ⟨.empty, [⟨"a.F90", 1⟩]⟩) := by
  have read : Item.ofLines [brokenInclude.line] = .ok [brokenInclude] := by cbv
  have resolved : resolveInclude limitTree [] "broken.h" ⟨"a.F90"⟩ = some ⟨"broken.h"⟩ :=
    resolve_beside (by decide +kernel) rfl (by cbv)
  have found : limitTree.find ⟨"broken.h"⟩ = .ok (.file "#ifdef\n".toUTF8) := by cbv
  have kept : Line.ofText "broken.h" "#ifdef\n" = [⟨"#ifdef", ⟨"broken.h", 1⟩⟩] := by cbv
  have unnamed : Directive.classify "#ifdef" = .error (.missingName "ifdef") := by cbv
  have included : includedItems limitTree [] "broken.h" ⟨"a.F90", 1⟩ = .error
      (.malformedDirective ⟨"broken.h", 1⟩ (Directive.Fault.missingName "ifdef").message) := by
    unfold includedItems loadInclude
    rw [resolved]
    simp only [FileTree.read_lines_of_find found kept, List.mapM_cons, includedItem, Item.ofLine,
      unnamed, bind, Except.bind]
  have stopped : splice limitTree [] [brokenInclude] 0 = (.error
      (.malformedDirective ⟨"broken.h", 1⟩ (Directive.Fault.missingName "ifdef").message),
        [⟨"a.F90", 1⟩]) := by
    unfold brokenInclude
    rw [splice_include limitTree [] rfl, included]
  unfold preprocess prepareLevel
  rw [read]
  simp only [stopped]
  rfl

/-- The lines of the header stand in the place of the include, and the failure names the line of the
other header. -/
theorem header_lines_accounted_for :
    (∃ loaded full sources, Unfolds limitTree [] limitItems loaded full ∧
      loaded.Perm [⟨"a.F90", 1⟩] ∧ Enclosed 0 full ∧ sources.Sublist full ∧
      List.Forall₂ Gives sources limitOutput) ∧
    ∃ line ∈ reachable limitTree [] [brokenInclude.line] [brokenInclude.line],
      line.location = ⟨"broken.h", 1⟩ := by
  constructor
  · obtain ⟨items, loaded, full, sources, read, unfolds, same, enclosed, sublist, gives, -⟩ :=
      (every_output_line_is_accounted_for limitTree [] (limitItems.map (·.line)) .empty).1
        limitOutput (congrArg Prod.fst limit_output)
    rw [limit_items_read] at read
    cases read
    rw [limit_output] at same
    exact ⟨loaded, full, sources, unfolds, same, enclosed, sublist, gives⟩
  · have failure := (every_output_line_is_accounted_for limitTree [] [brokenInclude.line]
      .empty).2
    rw [broken_header_fails] at failure
    obtain ⟨line, reached, located⟩ := failure _ _ rfl rfl
    exact ⟨line, reached, located⟩

end Preprocess

end FortranDeps

import FortranDeps.Proofs.Preprocess.Agreement

/-!
The files that a run misses. A run that looks up an include which fails ends with that failure, and
a report that a file cannot be found is true, so a file that a looked up include cannot do without
is missed, and by agreement no other file is. Included lines have no part in what is looked up.
-/

namespace FortranDeps.Preprocess

open Block

/-! Includes that fail. -/

/-- All includes at a location fail in one way. -/
def Fails (tree : FileTree) (paths : List Path) (items : List Item) (location : Location)
    (diagnostic : Diagnostic) : Prop :=
  ∀ item ∈ items, ∀ name, item.directive = some (.includeFile name) →
    item.line.location = location → includedItems tree paths name location = .error diagnostic

namespace Fails

variable {tree : FileTree} {paths : List Path} {items : List Item} {location : Location}
  {diagnostic : Diagnostic}

theorem mono {inner : List Item} (fails : Fails tree paths items location diagnostic)
    (inside : ∀ item ∈ inner, item.isInclude = true → item ∈ items) :
    Fails tree paths inner location diagnostic := by
  intro item member name directive same
  have isInclude := Item.is_include_of_directive directive
  exact fails item (inside item member isInclude) name directive same

theorem splice {depth : Nat} (fails : Fails tree paths items location diagnostic)
    (looked : location ∈ (splice tree paths items depth).2) :
    (Preprocess.splice tree paths items depth).1 = .error diagnostic := by
  induction items generalizing depth with
  | nil => cases looked
  | cons item rest induction =>
      have later : Fails tree paths rest location diagnostic :=
        fails.mono fun _ member _ => List.mem_cons_of_mem _ member
      rcases item.include_outside_or depth with ⟨name, directive, rfl⟩ | plain
      · have own := fails item List.mem_cons_self name directive
        rw [splice_include _ _ directive] at looked ⊢
        cases read : includedItems tree paths name item.line.location with
        | error found =>
            rw [read] at looked
            have same : location = item.line.location := List.mem_singleton.mp looked
            have stopped := own same.symm
            rw [same, read] at stopped
            exact stopped
        | ok included =>
            rw [read] at looked
            rcases List.mem_cons.mp looked with same | inRest
            · have stopped := own same.symm
              rw [same, read] at stopped
              cases stopped
            · simp only [induction later inRest]
              rfl
      · rw [splice_other _ _ plain] at looked ⊢
        simp only [induction later looked]
        rfl

theorem prepare_level {progress after : Progress} {result : Except Diagnostic (List Item)}
    (fails : Fails tree paths items location diagnostic)
    (preparation : prepareLevel tree paths items progress = (result, after))
    (looked : location ∈ after.loaded) (fresh : location ∉ progress.loaded) :
    result = .error diagnostic := by
  have found := loaded_prepare_level tree paths items progress
  rw [preparation] at found
  rw [show after.loaded = _ from found] at looked
  have stopped := fails.splice ((List.mem_append.mp looked).resolve_left fresh)
  unfold Preprocess.prepareLevel at preparation
  split at preparation
  · next spliced =>
      cases preparation
      rw [spliced] at stopped
      exact stopped
  · next spliced =>
      rw [spliced] at stopped
      cases stopped

/-- A run that looks up an include which fails ends with that failure. -/
theorem walk {progress : Progress} {result : Except Diagnostic (List Line) × Progress}
    (run : (walker tree paths).Run items progress result)
    (fails : Fails tree paths items location diagnostic)
    (looked : location ∈ result.2.loaded) (fresh : location ∉ progress.loaded) :
    result.1 = .error diagnostic := by
  have branch {item : Item} {rest : List Item} {parts : Parts}
      (fails : Fails tree paths (item :: rest) location diagnostic)
      (found : cut item.line.location rest 0 false = .ok parts) (holds : Bool) :
      Fails tree paths (parts.branch holds) location diagnostic :=
    fails.mono fun _ member _ =>
      List.mem_cons_of_mem _ ((compose_of_cut found).1.mem_of_branch member)
  -- A level that could be prepared has not looked up the location.
  have prepared {items level : List Item} {progress after : Progress}
      (fails : Fails tree paths items location diagnostic)
      (preparation : Preprocess.prepareLevel tree paths items progress = (.ok level, after))
      (fresh : location ∉ progress.loaded) :
      Fails tree paths level location diagnostic ∧ location ∉ after.loaded := by
    constructor
    · exact fails.mono fun _ => mem_of_prepare_level preparation
    · intro looked
      cases fails.prepare_level preparation looked fresh
  induction run with
  | nil | misplaced | unclosed => exact absurd looked fresh
  | straight _ _ induction =>
      rw [induction (fails.mono fun _ member _ => List.mem_cons_of_mem _ member) looked fresh]
      rfl
  | refused _ found preparation =>
      have stopped := (branch fails found _).prepare_level preparation looked fresh
      cases stopped
      rfl
  | failed _ found preparation _ inside =>
      obtain ⟨level, unseen⟩ := prepared (branch fails found _) preparation fresh
      exact inside level looked unseen
  | @block item rest level progress entered walked name wantsDefined parts inner result role found
      preparation _ _ inside behind =>
      obtain ⟨level, unseen⟩ := prepared (branch fails found _) preparation fresh
      by_cases early : location ∈ walked.loaded
      · cases inside level early unseen
      · have after := fails.mono fun _ member _ =>
          List.mem_cons_of_mem item ((compose_of_cut found).1.mem_of_after member)
        rw [behind after looked early]
        rfl

end Fails

/-! Reports of missing files. -/

/-- A report that a file is missing is true. -/
def Honest (tree : FileTree) (paths : List Path) (diagnostic : Diagnostic) : Prop :=
  ∀ location name, diagnostic = .includeNotFound location name →
    resolveInclude tree paths name ⟨location.file⟩ = none

theorem honest_of_cut {location : Location} {items : List Item} {depth : Nat} {turned : Bool}
    {diagnostic : Diagnostic} (failed : cut location items depth turned = .error diagnostic)
    (tree : FileTree) (paths : List Path) : Honest tree paths diagnostic := by
  fun_induction cut location items depth turned with
  | case1 | case6 | case9 =>
      cases failed
      rintro _ _ ⟨⟩
  | case4 => cases failed
  | case2 _ _ _ _ _ _ induction | case3 _ _ _ _ _ _ induction | case5 _ _ _ _ _ induction
  | case7 _ _ _ _ _ induction | case8 _ _ _ _ _ induction
  | case10 _ _ _ _ _ _ _ _ _ induction => exact induction (map_eq_error.mp failed)

theorem honest_of_included_items {tree : FileTree} {paths : List Path} {name : String}
    {location : Location} {diagnostic : Diagnostic}
    (failed : includedItems tree paths name location = .error diagnostic) :
    Honest tree paths diagnostic := by
  have line {line : Line} {diagnostic : Diagnostic}
      (failed : includedItem name line = .error diagnostic) : Honest tree paths diagnostic := by
    unfold includedItem Item.ofLine at failed
    split at failed
    · simp only [bind, Except.bind] at failed
      split at failed
      · cases failed
        rintro _ _ ⟨⟩
      · cases failed
    · cases failed
      rintro _ _ ⟨⟩
  have lines {inner : List Line} {diagnostic : Diagnostic}
      (failed : inner.mapM (includedItem name) = .error diagnostic) :
      Honest tree paths diagnostic := by
    induction inner with
    | nil => cases failed
    | cons first rest induction =>
        rw [List.mapM_cons] at failed
        cases own : includedItem name first with
        | error found =>
            rw [own] at failed
            cases failed
            exact line own
        | ok item =>
            cases later : rest.mapM (includedItem name) with
            | error found =>
                rw [own, later] at failed
                cases failed
                exact induction later
            | ok items =>
                rw [own, later] at failed
                cases failed
  unfold includedItems loadInclude at failed
  cases found : resolveInclude tree paths name ⟨location.file⟩ with
  | none =>
      rw [found] at failed
      cases failed
      rintro _ _ ⟨⟩
      exact found
  | some path =>
      rw [found] at failed
      simp only [FileTree.readLines] at failed
      split at failed
      · exact lines failed
      · cases failed
        rintro _ _ ⟨⟩

theorem honest_of_splice {tree : FileTree} {paths : List Path} {items : List Item} {depth : Nat}
    {diagnostic : Diagnostic} (failed : (splice tree paths items depth).1 = .error diagnostic) :
    Honest tree paths diagnostic := by
  fun_induction splice tree paths items depth with
  | case1 => cases failed
  | case2 _ _ _ _ _ read =>
      cases failed
      exact honest_of_included_items read
  | case3 _ _ _ _ _ _ _ _ result induction =>
      rw [result] at induction
      exact induction (map_eq_error.mp failed)
  | case4 _ _ _ _ _ _ _ induction => exact induction (map_eq_error.mp failed)

theorem honest_of_prepare_level {tree : FileTree} {paths : List Path} {items : List Item}
    {progress after : Progress} {diagnostic : Diagnostic}
    (failed : prepareLevel tree paths items progress = (.error diagnostic, after)) :
    Honest tree paths diagnostic := by
  unfold prepareLevel at failed
  split at failed
  · next found =>
      cases failed
      exact honest_of_splice (congrArg Prod.fst found)
  · cases failed

theorem honest_of_walk {tree : FileTree} {paths : List Path} {items : List Item}
    {progress : Progress} {result : Except Diagnostic (List Line) × Progress}
    (run : (walker tree paths).Run items progress result) {diagnostic : Diagnostic}
    (failed : result.1 = .error diagnostic) : Honest tree paths diagnostic := by
  induction run with
  | nil => cases failed
  | straight _ _ induction | block _ _ _ _ _ _ induction =>
      exact induction (map_eq_error.mp failed)
  | misplaced =>
      cases failed
      rintro _ _ ⟨⟩
  | unclosed _ _ found =>
      cases failed
      exact honest_of_cut found tree paths
  | refused _ _ preparation =>
      cases failed
      exact honest_of_prepare_level preparation
  | failed _ _ _ _ inside => exact inside failed

/-- An include outside of the blocks around it is looked up, if the search comes so far. -/
theorem mem_loaded_of_splice {tree : FileTree} {paths : List Path} {before after : List Item}
    {item : Item} {name : String} (directive : item.directive = some (.includeFile name))
    {depth : Nat} (outside : depthThrough before depth = 0) {spliced : List Item}
    (done : (splice tree paths before depth).1 = .ok spliced) :
    item.line.location ∈ (splice tree paths (before ++ item :: after) depth).2 := by
  induction before generalizing depth spliced with
  | nil =>
      obtain rfl : depth = 0 := outside
      rw [List.nil_append, splice_include _ _ directive]
      split
      · exact List.mem_singleton_self _
      · exact List.mem_cons_self
  | cons first rest induction =>
      have later : depthThrough rest (depthAfter first depth) = 0 := outside
      rw [List.cons_append]
      rcases first.include_outside_or depth with ⟨target, includes, rfl⟩ | plain
      · have inert : depthAfter first 0 = 0 :=
          depth_after_inert 0 (by simp [Item.isInert, includes])
        rw [inert] at later
        rw [splice_include _ _ includes] at done ⊢
        cases read : includedItems tree paths target first.line.location with
        | error diagnostic =>
            rw [read] at done
            cases done
        | ok included =>
            rw [read] at done
            obtain ⟨tail, done, -⟩ := map_eq_ok.mp done
            exact List.mem_cons_of_mem _ (induction later done)
      · rw [splice_other _ _ plain] at done ⊢
        obtain ⟨tail, done, -⟩ := map_eq_ok.mp done
        exact induction later done

theorem eq_of_includes_at {items : List Item} {location : Location}
    (alone : includesAt location items = 1) {first second : Item} (inFirst : first ∈ items)
    (isFirst : first.isInclude = true) (atFirst : first.line.location = location)
    (inSecond : second ∈ items) (isSecond : second.isInclude = true)
    (atSecond : second.line.location = location) : first = second := by
  unfold includesAt at alone
  rw [List.countP_eq_length_filter] at alone
  obtain ⟨only, found⟩ := List.length_eq_one_iff.mp alone
  have same {item : Item} (member : item ∈ items) (isInclude : item.isInclude = true)
      (located : item.line.location = location) : item = only := by
    apply List.mem_singleton.mp
    rw [← found]
    exact List.mem_filter.mpr ⟨member, by simp [isInclude, located]⟩
  rw [same inFirst isFirst atFirst, same inSecond isSecond atSecond]

/-! Runs over whole sources. -/

/-- The items of the branches that a run does not choose. -/
def discardedItems (tree : FileTree) (paths : List Path) (items : List Item)
    (seeds : MacroTable) : List Item :=
  match prepareLevel tree paths items ⟨seeds, []⟩ with
  | (.error _, _) => []
  | (.ok level, progress) => (walker tree paths).discarded level progress

section Source

variable {tree : FileTree} {paths : List Path} {lines : List Line} {seeds : MacroTable}
  {items : List Item} (read : Item.ofLines lines = .ok items)

include read

theorem preprocess_accounts (location : Location) :
    (preprocess tree paths lines seeds).2.loaded.count location +
        includesAt location (discardedItems tree paths items seeds) ≤ includesAt location items ∧
    ∀ output, (preprocess tree paths lines seeds).1 = .ok output →
      (preprocess tree paths lines seeds).2.loaded.count location +
          includesAt location (discardedItems tree paths items seeds) =
        includesAt location items := by
  unfold discardedItems
  rcases preprocess_cases tree paths seeds read with
    ⟨diagnostic, progress, preparation, failed⟩ | ⟨level, progress, preparation, run⟩
  · obtain ⟨most, -⟩ := prepare_level_accounts preparation location
    rw [preparation, failed]
    exact ⟨by simpa [includesAt] using most, nofun⟩
  · obtain ⟨-, equals⟩ := prepare_level_accounts preparation location
    have entered := equals level rfl
    obtain ⟨most, done⟩ := walk_accounts run (covered_prepare_level preparation) location
    rw [preparation]
    simp only [List.count_nil, Nat.zero_add] at entered
    rw [entered] at most done
    exact ⟨most, done⟩

theorem Fails.preprocess {location : Location} {diagnostic : Diagnostic}
    (fails : Fails tree paths items location diagnostic)
    (looked : location ∈ (preprocess tree paths lines seeds).2.loaded) :
    (Preprocess.preprocess tree paths lines seeds).1 = .error diagnostic := by
  have fresh : location ∉ ([] : List Location) := List.not_mem_nil
  rcases preprocess_cases tree paths seeds read with
    ⟨other, progress, preparation, failed⟩ | ⟨level, progress, preparation, run⟩
  · rw [failed] at looked ⊢
    cases fails.prepare_level preparation looked fresh
    rfl
  · apply Fails.walk run (fails.mono fun _ => mem_of_prepare_level preparation) looked
    intro early
    cases fails.prepare_level preparation early fresh

theorem honest_of_preprocess {diagnostic : Diagnostic}
    (failed : (preprocess tree paths lines seeds).1 = .error diagnostic) :
    Honest tree paths diagnostic := by
  rcases preprocess_cases tree paths seeds read with
    ⟨other, progress, preparation, same⟩ | ⟨level, progress, preparation, run⟩
  · rw [same] at failed
    cases failed
    exact honest_of_prepare_level preparation
  · exact honest_of_walk run failed

/-- An include outside of the blocks of the source is looked up, if the includes before it give
their lines. -/
theorem looked_up_outside {before after : List Item} {item : Item} {name : String}
    (written : items = before ++ item :: after)
    (directive : item.directive = some (.includeFile name))
    (outside : depthThrough before 0 = 0) {spliced : List Item}
    (done : (splice tree paths before 0).1 = .ok spliced) :
    item.line.location ∈ (preprocess tree paths lines seeds).2.loaded := by
  have found := loaded_prepare_level tree paths items ⟨seeds, []⟩
  have looked : item.line.location ∈ (prepareLevel tree paths items ⟨seeds, []⟩).2.loaded := by
    rw [found, written]
    exact List.mem_append_right _ (mem_loaded_of_splice directive outside done)
  rcases preprocess_cases tree paths seeds read with
    ⟨other, progress, preparation, failed⟩ | ⟨level, progress, preparation, run⟩
  · rw [preparation] at looked
    rw [failed]
    exact looked
  · rw [preparation] at looked
    exact loaded_subset run looked

end Source

/-- The files that a run depends on are those of the includes that it looks up. No include is both
looked up and left in a discarded branch, and on success each of them is one or the other. A file
that no looked up include finds is not missed, and a file that one of them cannot do without is. An
include outside of the blocks of the source itself is looked up, also if the included lines before
it have opened a block and its own lines are discarded. -/
theorem files_missed_by_lookups (tree : FileTree) (paths : List Path) (lines : List Line)
    (seeds : MacroTable) (items : List Item) (read : Item.ofLines lines = .ok items) :
    (∀ location,
      (preprocess tree paths lines seeds).2.loaded.count location +
          includesAt location (discardedItems tree paths items seeds) ≤ includesAt location items ∧
      ∀ output, (preprocess tree paths lines seeds).1 = .ok output →
        (preprocess tree paths lines seeds).2.loaded.count location +
            includesAt location (discardedItems tree paths items seeds) =
          includesAt location items) ∧
    (∀ place content, tree.node? place = some (.file content) →
      (∀ item ∈ items, ∀ name, item.directive = some (.includeFile name) →
        item.line.location ∈ (preprocess tree paths lines seeds).2.loaded →
        ¬ Finds tree paths name item.line.location place) →
      preprocess (tree.erase place) paths lines seeds = preprocess tree paths lines seeds) ∧
    (∀ item ∈ items, ∀ name place, item.directive = some (.includeFile name) →
      includesAt item.line.location items = 1 →
      item.line.location ∈ (preprocess tree paths lines seeds).2.loaded →
      Finds tree paths name item.line.location place →
      resolveInclude (tree.erase place) paths name ⟨item.line.location.file⟩ = none →
      preprocess (tree.erase place) paths lines seeds ≠ preprocess tree paths lines seeds) ∧
    (∀ before item after name spliced, items = before ++ item :: after →
      item.directive = some (.includeFile name) → depthThrough before 0 = 0 →
      (splice tree paths before 0).1 = .ok spliced →
      item.line.location ∈ (preprocess tree paths lines seeds).2.loaded) := by
  refine ⟨preprocess_accounts read, ?_, ?_, ?_⟩
  · intro place content file unfound
    apply preprocess_agree read
    intro item member name directive looked
    exact included_items_erase file (unfound item member name directive looked)
  · intro item member name place directive alone looked finds without same
    have fails : Fails (tree.erase place) paths items item.line.location
        (.includeNotFound item.line.location name) := by
      intro other inside target includes located
      have own := Item.is_include_of_directive directive
      have its := Item.is_include_of_directive includes
      obtain rfl := eq_of_includes_at alone member own rfl inside its located
      obtain rfl : name = target := by simpa [directive] using includes
      unfold includedItems loadInclude
      rw [without]
      rfl
    have failed := fails.preprocess read (same ▸ looked)
    rw [same] at failed
    have missing := honest_of_preprocess read failed _ _ rfl
    obtain ⟨path, found, -⟩ := finds
    rw [missing] at found
    cases found
  · intro before item after name spliced written directive outside done
    exact looked_up_outside read written directive outside done

/-- Headers that open and close a block around the lines of another one. -/
def spreadTree : FileTree :=
  { FileTree.empty [] with nodes :=
    [(["o.h"], .file "#ifdef X\n".toUTF8), (["b.h"], .file "use b\n".toUTF8),
      (["c.h"], .file "#endif\n".toUTF8)] }

def headerInclude (name : String) (line : Nat) : Item :=
  ⟨⟨"#include '" ++ name ++ "'", ⟨"a.F90", line⟩⟩, some (.includeFile name)⟩

def spreadItems : List Item :=
  [headerInclude "o.h" 1, headerInclude "b.h" 2, headerInclude "c.h" 3]

/-- What the headers give. -/
def openingItem : Item := ⟨⟨"#ifdef X", ⟨"o.h", 1⟩⟩, some (.ifDefined "X")⟩
def innerItem : Item := ⟨⟨"use b", ⟨"b.h", 1⟩⟩, none⟩
def closingItem : Item := ⟨⟨"#endif", ⟨"c.h", 1⟩⟩, some .endIf⟩

theorem splice_header {name : String} {line : Nat} {included rest tail : List Item}
    (read : includedItems spreadTree [] name ⟨"a.F90", line⟩ = .ok included)
    {loaded : List Location} (later : splice spreadTree [] rest 0 = (.ok tail, loaded)) :
    splice spreadTree [] (headerInclude name line :: rest) 0 =
      (.ok (included ++ tail), ⟨"a.F90", line⟩ :: loaded) := by
  have directive : (headerInclude name line).directive = some (.includeFile name) := rfl
  have location : (headerInclude name line).line.location = ⟨"a.F90", line⟩ := rfl
  rw [splice_include _ _ directive, location, read]
  simp only [later]
  rfl

theorem opening_included :
    includedItems spreadTree [] "o.h" ⟨"a.F90", 1⟩ = .ok [openingItem] := by
  have resolved : resolveInclude spreadTree [] "o.h" ⟨"a.F90"⟩ = some ⟨"o.h"⟩ := by cbv
  have read : spreadTree.readLines ⟨"o.h"⟩ = .ok [openingItem.line] := by cbv
  have classified : Item.ofLines [openingItem.line] = .ok [openingItem] := by cbv
  exact included_of_resolved resolved read classified (by decide)

theorem spread_splice :
    splice spreadTree [] spreadItems 0 =
      (.ok [openingItem, innerItem, closingItem],
        [⟨"a.F90", 1⟩, ⟨"a.F90", 2⟩, ⟨"a.F90", 3⟩]) := by
  have inner : includedItems spreadTree [] "b.h" ⟨"a.F90", 2⟩ = .ok [innerItem] := by cbv
  have closing : includedItems spreadTree [] "c.h" ⟨"a.F90", 3⟩ = .ok [closingItem] := by cbv
  exact splice_header opening_included (splice_header inner (splice_header closing rfl))

theorem spread_read : Item.ofLines (spreadItems.map (·.line)) = .ok spreadItems := by
  cbv

theorem spread_passes :
    (preprocess spreadTree [] (spreadItems.map (·.line)) .empty).1 = .ok [] := by
  have prepared : prepareLevel spreadTree [] spreadItems ⟨.empty, []⟩ =
      (.ok [openingItem, innerItem, closingItem],
        ⟨.empty, [⟨"a.F90", 1⟩, ⟨"a.F90", 2⟩, ⟨"a.F90", 3⟩]⟩) := by
    unfold prepareLevel
    rw [spread_splice]
    rfl
  have found : cut openingItem.line.location [innerItem, closingItem] 0 false =
      .ok ⟨[innerItem], none, []⟩ := rfl
  unfold preprocess
  rw [spread_read]
  simp only [prepared]
  rw [(Walker.Run.block rfl found rfl (.nil _) (.nil _)).walk_eq]
  rfl

/-- The line of the second header is discarded, and yet its file is missed. -/
theorem file_in_a_discarded_branch_is_missed :
    (preprocess spreadTree [] (spreadItems.map (·.line)) .empty).1 = .ok [] ∧
    preprocess (spreadTree.erase ["b.h"]) [] (spreadItems.map (·.line)) .empty ≠
      preprocess spreadTree [] (spreadItems.map (·.line)) .empty := by
  have before : splice spreadTree [] [headerInclude "o.h" 1] 0 = _ :=
    splice_header opening_included rfl
  obtain ⟨-, -, missed, outside⟩ := files_missed_by_lookups spreadTree []
    (spreadItems.map (·.line)) .empty spreadItems spread_read
  have looked := outside [headerInclude "o.h" 1] (headerInclude "b.h" 2)
    [headerInclude "c.h" 3] "b.h" _ rfl rfl rfl (congrArg Prod.fst before)
  refine ⟨spread_passes, ?_⟩
  apply missed (headerInclude "b.h" 2) (by simp [spreadItems]) "b.h" ["b.h"] rfl (by decide) looked
  · exact ⟨⟨"b.h"⟩, by cbv, by cbv⟩
  · cbv

end FortranDeps.Preprocess

import FortranDeps.Proofs.Files.Removal
import FortranDeps.Proofs.Preprocess.Lookups

/-!
Runs in two trees. A run is the same in every tree in which the includes that it looks up give the
same items, so a file that none of them finds can be removed.
-/

namespace FortranDeps.Preprocess

open Block

theorem loaded_prepare_level (tree : FileTree) (paths : List Path) (items : List Item)
    (progress : Progress) :
    (prepareLevel tree paths items progress).2.loaded =
      progress.loaded ++ (splice tree paths items 0).2 := by
  unfold prepareLevel
  split
  · next spliced => rw [spliced]
  · next spliced => rw [spliced]

/-- What has been looked up is kept. -/
theorem loaded_subset {tree : FileTree} {paths : List Path} {items : List Item}
    {progress : Progress} {result : Except Diagnostic (List Line) × Progress}
    (run : (walker tree paths).Run items progress result) : progress.loaded ⊆ result.2.loaded := by
  have prepared {items : List Item} {progress after : Progress}
      {result : Except Diagnostic (List Item)}
      (preparation : prepareLevel tree paths items progress = (result, after)) :
      progress.loaded ⊆ after.loaded := by
    have grown := loaded_prepare_level tree paths items progress
    rw [preparation] at grown
    rw [grown]
    exact List.subset_append_left _ _
  induction run with
  | nil | misplaced | unclosed => exact List.Subset.refl _
  | straight _ _ induction => exact induction
  | refused _ _ preparation => exact prepared preparation
  | failed _ _ preparation _ inside => exact List.Subset.trans (prepared preparation) inside
  | block _ _ preparation _ _ inside behind =>
      exact List.Subset.trans (prepared preparation) (List.Subset.trans inside behind)

/-! Two trees that agree on the includes that are looked up. -/

/-- The includes of the items that are looked up give the same in both trees. -/
def Agree (tree other : FileTree) (paths : List Path) (items : List Item)
    (loaded : List Location) : Prop :=
  ∀ item ∈ items, ∀ name, item.directive = some (.includeFile name) →
    item.line.location ∈ loaded →
    includedItems other paths name item.line.location =
      includedItems tree paths name item.line.location

theorem Agree.mono {tree other : FileTree} {paths : List Path} {items inner : List Item}
    {loaded fewer : List Location} (agree : Agree tree other paths items loaded)
    (inside : ∀ item ∈ inner, item.isInclude = true → item ∈ items) (less : fewer ⊆ loaded) :
    Agree tree other paths inner fewer := by
  intro item member name directive found
  have isInclude := Item.is_include_of_directive directive
  exact agree item (inside item member isInclude) name directive (less found)

theorem splice_agree {tree other : FileTree} {paths : List Path} {items : List Item} {depth : Nat}
    (agree : Agree tree other paths items (splice tree paths items depth).2) :
    splice other paths items depth = splice tree paths items depth := by
  induction items generalizing depth with
  | nil => rfl
  | cons item rest induction =>
      have inside : ∀ later ∈ rest, later.isInclude = true → later ∈ item :: rest :=
        fun later member _ => List.mem_cons_of_mem item member
      rcases item.include_outside_or depth with ⟨name, directive, rfl⟩ | plain
      · have loaded : item.line.location ∈ (splice tree paths (item :: rest) 0).2 := by
          rw [splice_include _ _ directive]
          split
          · exact List.mem_singleton_self _
          · exact List.mem_cons_self
        have same := agree item List.mem_cons_self name directive loaded
        rw [splice_include _ _ directive] at agree ⊢
        rw [splice_include _ _ directive, same]
        cases read : includedItems tree paths name item.line.location with
        | error diagnostic => rfl
        | ok included =>
            rw [read] at agree
            rw [induction (agree.mono inside (List.subset_cons_self _ _))]
      · rw [splice_other _ _ plain] at agree ⊢
        rw [splice_other _ _ plain, induction (agree.mono inside (List.Subset.refl _))]

theorem mem_of_splice {tree : FileTree} {paths : List Path} {items spliced : List Item}
    {depth : Nat} (done : (splice tree paths items depth).1 = .ok spliced) {item : Item}
    (member : item ∈ spliced) (isInclude : item.isInclude = true) : item ∈ items := by
  fun_induction splice tree paths items depth generalizing spliced with
  | case1 =>
      cases done
      cases member
  | case2 => cases done
  | case3 first rest name directive included read later loaded result induction =>
      rw [result] at induction
      obtain ⟨tail, rfl, rfl⟩ := map_eq_ok.mp done
      rcases List.mem_append.mp member with inIncluded | inTail
      · simp [included_items_plain read item inIncluded] at isInclude
      · exact List.mem_cons_of_mem _ (induction rfl inTail)
  | case4 first rest depth later loaded result outside induction =>
      obtain ⟨tail, found, rfl⟩ := map_eq_ok.mp done
      rcases List.mem_cons.mp member with rfl | inTail
      · exact List.mem_cons_self
      · exact List.mem_cons_of_mem _ (induction found inTail)

/-- A level has no other includes than the items it is made from. -/
theorem mem_of_prepare_level {tree : FileTree} {paths : List Path} {items level : List Item}
    {progress after : Progress}
    (done : prepareLevel tree paths items progress = (.ok level, after)) {item : Item}
    (member : item ∈ level) (isInclude : item.isInclude = true) : item ∈ items := by
  unfold prepareLevel at done
  split at done
  · cases done
  · next spliced loaded found =>
      cases done
      have inSpliced := (apply_definitions_sublist _ _ _).mem member
      exact mem_of_splice (congrArg Prod.fst found) inSpliced isInclude

namespace Agree

variable {tree other : FileTree} {paths : List Path} {items : List Item} {loaded : List Location}

theorem prepared (agree : Agree tree other paths items loaded) {progress after : Progress}
    {result : Except Diagnostic (List Item)}
    (preparation : prepareLevel tree paths items progress = (result, after))
    (less : after.loaded ⊆ loaded) :
    prepareLevel other paths items progress = (result, after) := by
  have found := loaded_prepare_level tree paths items progress
  rw [preparation] at found
  have same : splice other paths items 0 = splice tree paths items 0 := by
    apply splice_agree
    apply agree.mono (fun _ member _ => member)
    intro location member
    apply less
    rw [found]
    exact List.mem_append_right _ member
  rw [← preparation]
  unfold prepareLevel
  rw [same]

theorem level (agree : Agree tree other paths items loaded) {progress after : Progress}
    {level : List Item}
    (preparation : prepareLevel tree paths items progress = (.ok level, after)) :
    Agree tree other paths level loaded :=
  agree.mono (fun _ => mem_of_prepare_level preparation) (List.Subset.refl _)

theorem tail {item : Item} {rest : List Item}
    (agree : Agree tree other paths (item :: rest) loaded) :
    Agree tree other paths rest loaded :=
  agree.mono (fun _ member _ => List.mem_cons_of_mem _ member) (List.Subset.refl _)

theorem branch {item : Item} {rest : List Item}
    (agree : Agree tree other paths (item :: rest) loaded) {parts : Parts}
    (found : cut item.line.location rest 0 false = .ok parts) (holds : Bool) :
    Agree tree other paths (parts.branch holds) loaded :=
  agree.tail.mono (fun _ member _ => (compose_of_cut found).1.mem_of_branch member)
    (List.Subset.refl _)

theorem after {item : Item} {rest : List Item}
    (agree : Agree tree other paths (item :: rest) loaded) {parts : Parts}
    (found : cut item.line.location rest 0 false = .ok parts) :
    Agree tree other paths parts.after loaded :=
  agree.tail.mono (fun _ member _ => (compose_of_cut found).1.mem_of_after member)
    (List.Subset.refl _)

end Agree

/-- A walk in a tree that agrees on the includes that are looked up is the same. -/
theorem walk_agree {tree other : FileTree} {paths : List Path} {items : List Item}
    {progress : Progress} {result : Except Diagnostic (List Line) × Progress}
    (run : (walker tree paths).Run items progress result)
    (agree : Agree tree other paths items result.2.loaded) :
    (walker other paths).Run items progress result := by
  induction run with
  | nil progress => exact .nil progress
  | straight roles _ induction => exact .straight roles (induction agree.tail)
  | misplaced rest progress role => exact .misplaced rest progress role
  | unclosed progress role found => exact .unclosed progress role found
  | refused role found preparation =>
      apply Walker.Run.refused role found
      exact (agree.branch found _).prepared preparation (List.Subset.refl _)
  | failed role found preparation branch inside =>
      apply Walker.Run.failed role found
      · exact (agree.branch found _).prepared preparation (loaded_subset branch)
      · exact inside ((agree.branch found _).level preparation)
  | @block item rest level progress prepared walked name wantsDefined parts inner result role found
      preparation branch later inside behind =>
      have reached : walked.loaded ⊆ result.2.loaded := loaded_subset later
      apply Walker.Run.block role found
      · apply (agree.branch found _).prepared preparation
        exact List.Subset.trans (loaded_subset branch) reached
      · apply inside
        exact ((agree.branch found _).level preparation).mono (fun _ member _ => member) reached
      · exact behind (agree.after found)

theorem preprocess_agree {tree other : FileTree} {paths : List Path} {lines : List Line}
    {seeds : MacroTable} {items : List Item} (read : Item.ofLines lines = .ok items)
    (agree : Agree tree other paths items (preprocess tree paths lines seeds).2.loaded) :
    preprocess other paths lines seeds = preprocess tree paths lines seeds := by
  rcases preprocess_cases tree paths seeds read with
    ⟨diagnostic, progress, preparation, failed⟩ | ⟨level, progress, preparation, run⟩
  · rw [failed] at agree ⊢
    have same := agree.prepared preparation (List.Subset.refl _)
    unfold preprocess
    rw [read]
    simp only [same]
  · have same := agree.prepared preparation (loaded_subset run)
    have walked := (walk_agree run (agree.level preparation)).walk_eq
    rw [← walked]
    generalize preprocess tree paths lines seeds = result
    unfold preprocess
    rw [read]
    simp only [same]

/-! Removing a file. -/

/-- Whether an include finds the file at a place. -/
def Finds (tree : FileTree) (paths : List Path) (name : String) (location : Location)
    (place : Place) : Prop :=
  ∃ path, resolveInclude tree paths name ⟨location.file⟩ = some path ∧
    tree.locate path = .ok place

theorem resolve_erase {tree : FileTree} {place : Place} {content : ByteArray}
    (file : tree.node? place = some (.file content)) (candidates : List Path)
    (other : ∀ path, candidates.find? tree.isFile = some path → tree.locate path ≠ .ok place) :
    candidates.find? (tree.erase place).isFile = candidates.find? tree.isFile := by
  induction candidates with
  | nil => rfl
  | cons path rest induction =>
      cases found : tree.isFile path with
      | true =>
          rw [List.find?_cons_of_pos found] at other ⊢
          have kept := (FileTree.is_file_erase file).mpr ⟨found, other path rfl⟩
          exact List.find?_cons_of_pos kept
      | false =>
          have missing : (tree.erase place).isFile path = false := by
            apply Bool.eq_false_iff.mpr
            intro present
            rw [((FileTree.is_file_erase file).mp present).1] at found
            cases found
          have absent : ¬ tree.isFile path = true := by simp [found]
          rw [List.find?_cons_of_neg absent] at other
          rw [List.find?_cons_of_neg absent, List.find?_cons_of_neg (by simp [missing])]
          exact induction other

theorem included_items_erase {tree : FileTree} {place : Place} {content : ByteArray}
    (file : tree.node? place = some (.file content)) {paths : List Path} {name : String}
    {location : Location} (other : ¬ Finds tree paths name location place) :
    includedItems (tree.erase place) paths name location =
      includedItems tree paths name location := by
  have elsewhere : ∀ path, resolveInclude tree paths name ⟨location.file⟩ = some path →
      tree.locate path ≠ .ok place := fun path found leads => other ⟨path, found, leads⟩
  have same : resolveInclude (tree.erase place) paths name ⟨location.file⟩ =
      resolveInclude tree paths name ⟨location.file⟩ := resolve_erase file _ elsewhere
  have loaded : loadInclude (tree.erase place) paths name location =
      loadInclude tree paths name location := by
    unfold loadInclude
    rw [same]
    cases found : resolveInclude tree paths name ⟨location.file⟩ with
    | none => rfl
    | some path =>
        have isFile : tree.isFile path = true := List.find?_some found
        have text := FileTree.read_text_erase file isFile (elsewhere path found)
        simp only [FileTree.readLines, text]
  unfold includedItems
  rw [loaded]

end FortranDeps.Preprocess

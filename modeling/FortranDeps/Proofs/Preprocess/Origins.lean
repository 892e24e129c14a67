import FortranDeps.Proofs.Preprocess.Balance
import FortranDeps.Proofs.Preprocess.Lookups

/-!
Where the items of a run come from. Whatever is prepared or walked is a line of the source or a
line of a file that the source includes, read on its own, and an include is always a line of the
source.
-/

namespace FortranDeps.Preprocess

open Block

/-- The lines of the files that lines include, whether or not a run looks them up. -/
def includable (tree : FileTree) (paths : List Path) (lines : List Line) : List Line :=
  lines.flatMap fun line =>
    match lineDirective? line with
    | some (.includeFile name) => (loadInclude tree paths name line.location).toOption.getD []
    | _ => []

/-- The lines that a run may meet if it looks up no other includes than those that are opened. -/
def reachable (tree : FileTree) (paths : List Path) (lines opened : List Line) : List Line :=
  lines ++ includable tree paths opened

theorem mem_includable {tree : FileTree} {paths : List Path} {lines included : List Line}
    {outer line : Line} {name : String} (member : outer ∈ lines)
    (target : lineDirective? outer = some (.includeFile name))
    (read : loadInclude tree paths name outer.location = .ok included) (inner : line ∈ included) :
    line ∈ includable tree paths lines := by
  apply List.mem_flatMap.mpr
  refine ⟨outer, member, ?_⟩
  rw [target]
  simpa [read, Except.toOption] using inner

/-! Items that are read from lines. -/

theorem lines_of_read {read : Line → Except Diagnostic Item}
    (each : ∀ line item, read line = .ok item → item.line = line) {lines : List Line}
    {items : List Item} (done : lines.mapM read = .ok items) : items.map Item.line = lines := by
  induction lines generalizing items with
  | nil =>
      cases done
      rfl
  | cons line rest induction =>
      rw [List.mapM_cons] at done
      cases first : read line with
      | error _ => rw [first] at done; cases done
      | ok item =>
          cases later : rest.mapM read with
          | error _ => rw [first, later] at done; cases done
          | ok others =>
              rw [first, later] at done
              obtain rfl : item :: others = items := Except.ok.inj done
              rw [List.map_cons, each line item first, induction later]

theorem line_of_of_line {line : Line} {item : Item} (read : Item.ofLine line = .ok item) :
    item.line = line := by
  rw [of_line_eq read]
  rfl

theorem of_lines_unreadable {line : Line} {fault : Directive.Fault}
    (unreadable : Directive.classify line.text = .error fault) (rest : List Line) :
    Item.ofLines (line :: rest) = .error (.malformedDirective line.location fault.message) := by
  unfold Item.ofLines
  rw [List.mapM_cons, Item.ofLine, unreadable]
  rfl

theorem of_line_of_included_item {name : String} {line : Line} {item : Item}
    (read : includedItem name line = .ok item) : Item.ofLine line = .ok item := by
  unfold includedItem at read
  cases classified : Item.ofLine line with
  | error _ => rw [classified] at read; cases read
  | ok found =>
      rw [classified] at read
      simp only [bind, Except.bind] at read
      split at read
      · cases read
      · exact congrArg Except.ok (Except.ok.inj read)

/-- The items of an included file are those of its lines. -/
theorem included_items_eq_ok {tree : FileTree} {paths : List Path} {name : String}
    {location : Location} {included : List Item}
    (read : includedItems tree paths name location = .ok included) :
    loadInclude tree paths name location = .ok (included.map Item.line) ∧
      ∀ item ∈ included, Item.ofLine item.line = .ok item := by
  unfold includedItems at read
  cases loaded : loadInclude tree paths name location with
  | error _ => rw [loaded] at read; cases read
  | ok lines =>
      rw [loaded] at read
      have own (line : Line) (item : Item) (found : includedItem name line = .ok item) :
          item.line = line := line_of_of_line (of_line_of_included_item found)
      have classified (line : Line) (item : Item) (found : includedItem name line = .ok item) :
          Item.ofLine item.line = .ok item := by
        rw [own line item found]
        exact of_line_of_included_item found
      constructor
      · rw [lines_of_read own read]
      · exact outputs_all classified lines included read

/-! The items of a run. -/

/-- An item that a run on the given lines may meet. -/
structure Stems (tree : FileTree) (paths : List Path) (lines opened : List Line)
    (item : Item) : Prop where
  reached : item.line ∈ reachable tree paths lines opened
  read : Item.ofLine item.line = .ok item
  own : item.isInclude = true → item.line ∈ lines

/-- All items of a list are such. -/
def AllStem (tree : FileTree) (paths : List Path) (lines opened : List Line)
    (items : List Item) : Prop :=
  ∀ item ∈ items, Stems tree paths lines opened item

/-- All lines at the given locations are opened. -/
def Opened (lines opened : List Line) (loaded : List Location) : Prop :=
  ∀ line ∈ lines, line.location ∈ loaded → line ∈ opened

theorem Opened.mono {lines opened : List Line} {loaded fewer : List Location}
    (all : Opened lines opened loaded) (less : fewer ⊆ loaded) : Opened lines opened fewer :=
  fun line member found => all line member (less found)

section Items

variable {tree : FileTree} {paths : List Path} {lines opened : List Line}

theorem Stems.directive {item : Item} (stems : Stems tree paths lines opened item) :
    lineDirective? item.line = item.directive := by
  have same := of_line_eq stems.read
  exact (congrArg Item.directive same).symm

theorem all_stem_of_lines {items : List Item} (read : Item.ofLines lines = .ok items) :
    AllStem tree paths lines opened items := by
  have own := lines_of_read (fun _ _ => line_of_of_line) read
  have each (line : Line) (item : Item) (found : Item.ofLine line = .ok item) :
      Item.ofLine item.line = .ok item := by
    rw [line_of_of_line found]
    exact found
  have classified := outputs_all each lines items read
  intro item member
  have inside : item.line ∈ lines := by
    rw [← own]
    exact List.mem_map_of_mem member
  exact ⟨List.mem_append_left _ inside, classified item member, fun _ => inside⟩

/-- The lines of a file that is included by an item of the run. -/
theorem Stems.reachable_of_included {outer : Item} (stems : Stems tree paths lines opened outer)
    {name : String} (directive : outer.directive = some (.includeFile name))
    (looked : Opened lines opened [outer.line.location]) {included : List Line}
    (loaded : loadInclude tree paths name outer.line.location = .ok included) {line : Line}
    (member : line ∈ included) : line ∈ reachable tree paths lines opened := by
  have inSource := stems.own (Item.is_include_of_directive directive)
  have inOpened := looked _ inSource (List.mem_singleton_self _)
  apply List.mem_append_right
  exact mem_includable inOpened (stems.directive.trans directive) loaded member

theorem Stems.includes {outer : Item} (stems : Stems tree paths lines opened outer) {name : String}
    (directive : outer.directive = some (.includeFile name))
    (looked : Opened lines opened [outer.line.location]) {included : List Item}
    (read : includedItems tree paths name outer.line.location = .ok included) :
    AllStem tree paths lines opened included := by
  obtain ⟨loaded, classified⟩ := included_items_eq_ok read
  intro item member
  refine ⟨?_, classified item member, ?_⟩
  · exact stems.reachable_of_included directive looked loaded (List.mem_map_of_mem member)
  · intro isInclude
    rw [included_items_plain read item member] at isInclude
    cases isInclude

theorem all_stem_splice {items spliced : List Item} {depth : Nat}
    (stem : AllStem tree paths lines opened items)
    (looked : Opened lines opened (splice tree paths items depth).2)
    (done : (splice tree paths items depth).1 = .ok spliced) :
    AllStem tree paths lines opened spliced := by
  fun_induction splice tree paths items depth generalizing spliced with
  | case1 =>
      cases done
      exact stem
  | case2 => cases done
  | case3 item rest name directive included read later loaded result induction =>
      obtain ⟨own, others⟩ := List.forall_mem_cons.mp stem
      rw [result] at induction
      obtain ⟨tail, rfl, rfl⟩ := map_eq_ok.mp done
      have first : [item.line.location] ⊆ item.line.location :: loaded :=
        List.cons_subset_cons _ (List.nil_subset _)
      have inTail := induction others (looked.mono (List.subset_cons_self _ _)) rfl
      exact List.forall_mem_append.mpr
        ⟨own.includes directive (looked.mono first) read, inTail⟩
  | case4 item rest depth later loaded result outside induction =>
      obtain ⟨own, others⟩ := List.forall_mem_cons.mp stem
      obtain ⟨tail, found, rfl⟩ := map_eq_ok.mp done
      exact List.forall_mem_cons.mpr ⟨own, induction others looked found⟩

theorem all_stem_prepare_level {items level : List Item} {progress after : Progress}
    (stem : AllStem tree paths lines opened items) (looked : Opened lines opened after.loaded)
    (done : prepareLevel tree paths items progress = (.ok level, after)) :
    AllStem tree paths lines opened level := by
  unfold prepareLevel at done
  split at done
  · cases done
  · next spliced loaded found =>
      cases done
      have inside : (splice tree paths items 0).2 ⊆ progress.loaded ++ loaded := by
        rw [found]
        exact List.subset_append_right _ _
      intro item member
      have inSpliced := (apply_definitions_sublist _ _ _).mem member
      exact all_stem_splice stem (looked.mono inside) (congrArg Prod.fst found) item inSpliced

theorem AllStem.branch {item : Item} {rest : List Item}
    (stem : AllStem tree paths lines opened (item :: rest)) {parts : Parts}
    (found : cut item.line.location rest 0 false = .ok parts) (holds : Bool) :
    AllStem tree paths lines opened (parts.branch holds) := by
  intro other member
  exact stem other (List.mem_cons_of_mem _ ((compose_of_cut found).1.mem_of_branch member))

theorem AllStem.after {item : Item} {rest : List Item}
    (stem : AllStem tree paths lines opened (item :: rest)) {parts : Parts}
    (found : cut item.line.location rest 0 false = .ok parts) :
    AllStem tree paths lines opened parts.after := by
  intro other member
  exact stem other (List.mem_cons_of_mem _ ((compose_of_cut found).1.mem_of_after member))

end Items

end FortranDeps.Preprocess

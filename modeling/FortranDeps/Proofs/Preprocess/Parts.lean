import FortranDeps.Proofs.Preprocess.Walk

/-!
Conditional blocks cut into their parts. The search for the end of a block counts positions;
the same search can collect the items of the two branches and what follows the block. The
walk over a block then speaks of these lists only, and a list that opens and closes its own
blocks is passed over as a whole.
-/

namespace FortranDeps.Preprocess

theorem map_eq_ok {Fault First Second : Type} {f : First → Second} {result : Except Fault First}
    {value : Second} :
    result.map f = .ok value ↔ ∃ found, result = .ok found ∧ f found = value := by
  cases result <;> simp [Except.map]

/-- Whether an item takes no part in the structure of blocks. -/
def Item.isInert (item : Item) : Bool :=
  match item.directive with
  | some (.ifDefined _) | some (.ifUndefined _) | some .otherwise | some .endIf
  | some (.unsupported _) => false
  | _ => true

theorem Item.directive_of_opens_block {item : Item} (opens : item.opensBlock = true) :
    (∃ name, item.directive = some (.ifDefined name)) ∨
      ∃ name, item.directive = some (.ifUndefined name) := by
  obtain ⟨directive, found, opens⟩ := (Option.any_eq_true _ _).mp opens
  unfold Directive.opensBlock at opens
  split at opens
  · next name => exact .inl ⟨name, found⟩
  · next name => exact .inr ⟨name, found⟩
  · cases opens

theorem Item.opens_block_of_condition {item : Item} {name : String} {wantsDefined : Bool}
    (role : item.role = .condition name wantsDefined) : item.opensBlock = true := by
  unfold Item.opensBlock
  unfold Item.role at role
  split at role <;> simp_all [Directive.opensBlock]

theorem Item.inert_of_other {item : Item}
    (defined : ∀ name, item.directive = some (.ifDefined name) → False)
    (undefined : ∀ name, item.directive = some (.ifUndefined name) → False)
    (ends : item.directive = some .endIf → False)
    (turns : item.directive = some .otherwise → False)
    (unsupported : ∀ keyword, item.directive = some (.unsupported keyword) → False) :
    item.isInert = true := by
  unfold isInert
  split <;> simp_all

theorem Item.kind_cases (item : Item) :
    item.isInert = true ∨ item.opensBlock = true ∨ item.directive = some .otherwise ∨
      item.directive = some .endIf ∨ ∃ keyword, item.directive = some (.unsupported keyword) := by
  unfold isInert opensBlock
  cases item.directive with
  | none => simp
  | some directive => cases directive <;> simp [Directive.opensBlock]

namespace Block

/-- The items of the two branches and those behind the block. Without an alternative there
is no second branch. -/
structure Parts where
  first : List Item
  second : Option (List Item)
  after : List Item

namespace Parts

def keep (items : List Item) (parts : Parts) : Parts := { parts with first := items ++ parts.first }

/-- What follows an alternative, as parts of the whole block. -/
def turn (parts : Parts) : Parts := ⟨[], some parts.first, parts.after⟩

def branch (parts : Parts) (holds : Bool) : List Item :=
  if holds then parts.first else parts.second.getD []

/-- How a block is written: the first branch, the second one behind an alternative, and the
end. -/
def Compose (parts : Parts) (items : List Item) : Prop :=
  ∃ ending, match parts.second with
    | none => items = parts.first ++ ending :: parts.after
    | some second => ∃ middle, items = parts.first ++ middle :: (second ++ ending :: parts.after)

/-- The positions of a block whose first branch starts at the given one. -/
def place (opening : Nat) (alternative : Option Nat) (start : Nat) (parts : Parts) : Block where
  opening := opening
  alternative := alternative.or (parts.second.map fun _ => start + parts.first.length)
  ending := start + parts.first.length + (parts.second.map fun second => second.length + 1).getD 0

theorem Compose.keep {parts : Parts} {items : List Item} (composed : parts.Compose items)
    (item : Item) : (parts.keep [item]).Compose (item :: items) := by
  obtain ⟨first, second, after⟩ := parts
  obtain ⟨ending, shape⟩ := composed
  refine ⟨ending, ?_⟩
  cases second with
  | none => exact congrArg (item :: ·) shape
  | some other =>
      obtain ⟨middle, same⟩ := shape
      exact ⟨middle, congrArg (item :: ·) same⟩

theorem Compose.turn {parts : Parts} {items : List Item} (composed : parts.Compose items)
    (single : parts.second = none) (item : Item) : parts.turn.Compose (item :: items) := by
  obtain ⟨first, second, after⟩ := parts
  subst single
  obtain ⟨ending, same⟩ := composed
  exact ⟨ending, item, congrArg (item :: ·) same⟩

theorem Compose.length_after {parts : Parts} {items : List Item}
    (composed : parts.Compose items) : parts.after.length < items.length := by
  obtain ⟨first, second, after⟩ := parts
  obtain ⟨ending, shape⟩ := composed
  cases second with
  | none =>
      rw [shape]
      simp
      omega
  | some second =>
      obtain ⟨middle, rfl⟩ := shape
      simp
      omega

theorem Compose.mem_of_branch {parts : Parts} {items : List Item}
    (composed : parts.Compose items) {holds : Bool} {item : Item}
    (member : item ∈ parts.branch holds) : item ∈ items := by
  obtain ⟨first, second, after⟩ := parts
  obtain ⟨ending, shape⟩ := composed
  cases second with
  | none =>
      cases holds
      · cases member
      · rw [shape]
        exact List.mem_append_left _ member
  | some second =>
      obtain ⟨middle, rfl⟩ := shape
      cases holds
      · exact List.mem_append_right _ (List.mem_cons_of_mem _ (List.mem_append_left _ member))
      · exact List.mem_append_left _ member

theorem Compose.mem_of_after {parts : Parts} {items : List Item}
    (composed : parts.Compose items) {item : Item} (member : item ∈ parts.after) :
    item ∈ items := by
  obtain ⟨first, second, after⟩ := parts
  obtain ⟨ending, shape⟩ := composed
  cases second with
  | none =>
      rw [shape]
      exact List.mem_append_right _ (List.mem_cons_of_mem _ member)
  | some second =>
      obtain ⟨middle, rfl⟩ := shape
      simp [show item ∈ after from member]

theorem place_keep (opening : Nat) (alternative : Option Nat) (start : Nat) (item : Item)
    (parts : Parts) :
    (parts.keep [item]).place opening alternative start =
      parts.place opening alternative (start + 1) := by
  have shifted : start + (parts.first.length + 1) = start + 1 + parts.first.length := by omega
  simp only [place, Parts.keep, List.singleton_append, List.length_cons, shifted]

theorem place_turn (opening start : Nat) {parts : Parts} (single : parts.second = none) :
    parts.turn.place opening none start = parts.place opening (some start) (start + 1) := by
  have shifted : start + (parts.first.length + 1) = start + 1 + parts.first.length := by omega
  simp [place, Parts.turn, single, shifted]

end Parts

/-- Cuts the items that follow the opening of a block. `depth` is the number of inner blocks
that are open, and `turned` says whether the alternative has been met. -/
def cut (location : Location) :
    List Item → (depth : Nat) → (turned : Bool) → Except Diagnostic Parts
  | [], _, _ => .error (StructureFault.neverClosed.at location)
  | item :: rest, depth, turned =>
      match item.directive with
      | some (.ifDefined _) | some (.ifUndefined _) =>
          (cut location rest (depth + 1) turned).map (Parts.keep [item])
      | some .endIf =>
          match depth with
          | 0 => .ok ⟨[], none, rest⟩
          | outer + 1 => (cut location rest outer turned).map (Parts.keep [item])
      | some .otherwise =>
          match depth with
          | 0 =>
              if turned then
                .error ((StructureFault.secondAlternative location).at item.line.location)
              else (cut location rest 0 true).map Parts.turn
          | inner + 1 => (cut location rest (inner + 1) turned).map (Parts.keep [item])
      | some (.unsupported keyword) =>
          .error ((StructureFault.unsupported keyword).at item.line.location)
      | _ => (cut location rest depth turned).map (Parts.keep [item])

theorem compose_of_cut {location : Location} {items : List Item} {depth : Nat} {turned : Bool}
    {parts : Parts} (found : cut location items depth turned = .ok parts) :
    parts.Compose items ∧ (turned = true → parts.second = none) := by
  fun_induction cut location items depth turned generalizing parts with
  | case1 | case6 | case9 => cases found
  | case4 =>
      cases found
      exact ⟨⟨_, rfl⟩, fun _ => rfl⟩
  | case7 item rest _ _ unturned induction =>
      obtain ⟨inner, later, rfl⟩ := map_eq_ok.mp found
      obtain ⟨composed, single⟩ := induction later
      exact ⟨composed.turn (single rfl) item, fun turned => absurd turned unturned⟩
  | case2 item rest _ _ _ _ induction | case3 item rest _ _ _ _ induction
  | case5 item rest _ _ _ induction | case8 item rest _ _ _ induction
  | case10 item rest _ _ _ _ _ _ _ induction =>
      obtain ⟨inner, later, rfl⟩ := map_eq_ok.mp found
      obtain ⟨composed, single⟩ := induction later
      exact ⟨composed.keep item, single⟩

/-! One equation of the cut for each kind of item that does not fail. -/

section Cut

variable (location : Location) {item : Item} (rest : List Item) (depth : Nat) (turned : Bool)

theorem cut_opening (opens : item.opensBlock = true) :
    cut location (item :: rest) depth turned =
      (cut location rest (depth + 1) turned).map (Parts.keep [item]) := by
  rcases Item.directive_of_opens_block opens with ⟨name, directive⟩ | ⟨name, directive⟩
  · simp only [cut, directive]
  · simp only [cut, directive]

theorem cut_inert (inert : item.isInert = true) :
    cut location (item :: rest) depth turned =
      (cut location rest depth turned).map (Parts.keep [item]) := by
  unfold Item.isInert at inert
  simp only [cut]
  split <;> simp_all

theorem cut_inner_alternative (directive : item.directive = some .otherwise) :
    cut location (item :: rest) (depth + 1) turned =
      (cut location rest (depth + 1) turned).map (Parts.keep [item]) := by
  simp only [cut, directive]

theorem cut_inner_end (directive : item.directive = some .endIf) :
    cut location (item :: rest) (depth + 1) turned =
      (cut location rest depth turned).map (Parts.keep [item]) := by
  simp only [cut, directive]

theorem cut_alternative (directive : item.directive = some .otherwise) :
    cut location (item :: rest) 0 false = (cut location rest 0 true).map Parts.turn := by
  simp only [cut, directive, Bool.false_eq_true, if_false]

theorem cut_end (directive : item.directive = some .endIf) :
    cut location (item :: rest) 0 turned = .ok ⟨[], none, rest⟩ := by
  simp only [cut, directive]

end Cut

theorem map_place_keep (opening : Nat) (alternative : Option Nat) (start : Nat) (item : Item)
    (result : Except Diagnostic Parts) :
    (result.map (Parts.keep [item])).map (Parts.place opening alternative start) =
      result.map (Parts.place opening alternative (start + 1)) := by
  cases result with
  | error _ => rfl
  | ok parts => exact congrArg Except.ok (parts.place_keep opening alternative start item)

/-- The search for positions finds the same parts, or fails in the same way. -/
theorem close_eq_cut (opening : Nat) (location : Location) (items : List Item)
    (index depth : Nat) (alternative : Option Nat) :
    close opening location items index depth alternative =
      (cut location items depth alternative.isSome).map
        (Parts.place opening alternative index) := by
  fun_induction close opening location items index depth alternative with
  | case1 => rfl
  | case2 _ _ _ _ _ _ directive induction | case3 _ _ _ _ _ _ directive induction
  | case5 _ _ _ _ directive _ induction | case8 _ _ _ _ directive _ induction =>
      simp only [cut, directive, induction, map_place_keep]
  | case4 item rest index alternative directive =>
      simp only [cut, directive]
      cases alternative <;> rfl
  | case6 item rest index directive induction =>
      simp only [cut, directive, induction, Option.isSome_none, Bool.false_eq_true, if_false]
      cases found : cut location rest 0 true with
      | error _ => simp [found, Except.map]
      | ok parts =>
          have single := (compose_of_cut found).2 rfl
          simp only [Option.isSome_some, found, Except.map, Parts.place_turn opening index single]
  | case7 item rest index directive | case9 _ _ _ _ _ _ directive =>
      simp only [cut, directive, Option.isSome_some, if_true]
      rfl
  | case10 item rest index depth alternative defined undefined ends turns unsupported induction =>
      have inert := Item.inert_of_other defined undefined ends turns unsupported
      rw [induction, cut_inert _ _ _ _ inert, map_place_keep]

/-- What follows a block has no part in finding it. -/
theorem cut_append {location : Location} {items : List Item} {depth : Nat} {turned : Bool}
    {parts : Parts} (found : cut location items depth turned = .ok parts) (more : List Item) :
    cut location (items ++ more) depth turned =
      .ok { parts with after := parts.after ++ more } := by
  fun_induction cut location items depth turned generalizing parts with
  | case1 | case6 | case9 => cases found
  | case4 _ _ _ directive =>
      cases found
      exact cut_end location _ _ directive
  | case7 item rest turned directive unturned induction =>
      obtain ⟨inner, later, rfl⟩ := map_eq_ok.mp found
      rw [List.cons_append, Bool.eq_false_iff.mpr unturned, cut_alternative _ _ directive,
        induction later]
      rfl
  | case2 item rest depth turned name directive induction
  | case3 item rest depth turned name directive induction
  | case5 item rest turned directive outer induction
  | case8 item rest turned directive inner induction =>
      obtain ⟨inner, later, rfl⟩ := map_eq_ok.mp found
      simp only [List.cons_append, cut, directive, induction later]
      rfl
  | case10 item rest depth turned defined undefined ends turns unsupported induction =>
      obtain ⟨inner, later, rfl⟩ := map_eq_ok.mp found
      have inert := Item.inert_of_other defined undefined ends turns unsupported
      rw [List.cons_append, cut_inert _ _ _ _ inert, induction later]
      rfl

/-- Items that close the blocks that they open, and the given number of blocks before them,
and no other. Outside of these blocks they have no alternative, and nowhere a condition on an
expression. -/
inductive Enclosed : (depth : Nat) → List Item → Prop where
  | nil : Enclosed 0 []
  | inert {depth : Nat} {item : Item} {rest : List Item} (inert : item.isInert = true)
      (later : Enclosed depth rest) : Enclosed depth (item :: rest)
  | opening {depth : Nat} {item : Item} {rest : List Item} (opens : item.opensBlock = true)
      (later : Enclosed (depth + 1) rest) : Enclosed depth (item :: rest)
  | alternative {depth : Nat} {item : Item} {rest : List Item}
      (directive : item.directive = some .otherwise) (later : Enclosed (depth + 1) rest) :
      Enclosed (depth + 1) (item :: rest)
  | ending {depth : Nat} {item : Item} {rest : List Item}
      (directive : item.directive = some .endIf) (later : Enclosed depth rest) :
      Enclosed (depth + 1) (item :: rest)

theorem map_keep_keep (item : Item) (items : List Item) (result : Except Diagnostic Parts) :
    (result.map (Parts.keep items)).map (Parts.keep [item]) =
      result.map (Parts.keep (item :: items)) := by
  cases result <;> rfl

/-- Enclosed items are passed over at every depth. -/
theorem cut_enclosed {items : List Item} {inner : Nat} (enclosed : Enclosed inner items)
    (location : Location) (rest : List Item) (depth : Nat) (turned : Bool) :
    cut location (items ++ rest) (depth + inner) turned =
      (cut location rest depth turned).map (Parts.keep items) := by
  induction enclosed with
  | nil =>
      rw [List.nil_append, Nat.add_zero]
      cases cut location rest depth turned <;> rfl
  | inert inert _ induction =>
      rw [List.cons_append, cut_inert _ _ _ _ inert, induction, map_keep_keep]
  | opening opens _ induction =>
      rw [List.cons_append, cut_opening _ _ _ _ opens, Nat.add_assoc, induction, map_keep_keep]
  | alternative directive _ induction =>
      rw [List.cons_append, ← Nat.add_assoc, cut_inner_alternative _ _ _ _ directive,
        Nat.add_assoc, induction, map_keep_keep]
  | ending directive _ induction =>
      rw [List.cons_append, ← Nat.add_assoc, cut_inner_end _ _ _ _ directive, induction,
        map_keep_keep]

/-! The items at the positions of a block are those of its parts. -/

theorem slice_middle (before middle after : List Item) :
    slice (before ++ (middle ++ after)) (before.length, before.length + middle.length) =
      middle := by
  unfold slice
  rw [List.drop_left, Nat.add_sub_cancel_left, List.take_left]

variable {items : List Item} {parts : Parts}

theorem slice_then_range (composed : parts.Compose items) (opening : Item) :
    slice (opening :: items) (parts.place 0 none 1).thenRange = parts.first := by
  obtain ⟨first, second, after⟩ := parts
  obtain ⟨ending, shape⟩ := composed
  cases second with
  | none =>
      rw [shape]
      exact slice_middle [opening] first (ending :: after)
  | some second =>
      obtain ⟨middle, rfl⟩ := shape
      exact slice_middle [opening] first (middle :: (second ++ ending :: after))

theorem slice_else_range (composed : parts.Compose items) (opening : Item) :
    slice (opening :: items) (parts.place 0 none 1).elseRange = parts.second.getD [] := by
  obtain ⟨first, second, after⟩ := parts
  obtain ⟨ending, shape⟩ := composed
  cases second with
  | none => simp [slice, elseRange, Parts.place]
  | some second =>
      obtain ⟨middle, rfl⟩ := shape
      have found := slice_middle (opening :: (first ++ [middle])) second (ending :: after)
      have start : (opening :: (first ++ [middle])).length = 1 + first.length + 1 := by
        simp
        omega
      rw [start] at found
      simpa [elseRange, Parts.place, Nat.add_assoc, Nat.add_comm, Nat.add_left_comm] using found

theorem drop_ending (composed : parts.Compose items) :
    items.drop (parts.place 0 none 1).ending = parts.after := by
  obtain ⟨first, second, after⟩ := parts
  obtain ⟨ending, shape⟩ := composed
  cases second with
  | none =>
      have behind : ((Parts.mk first none after).place 0 none 1).ending = first.length + 1 := by
        simp [Parts.place, Nat.add_comm]
      rw [shape, behind, ← List.drop_drop, List.drop_left]
      rfl
  | some second =>
      obtain ⟨middle, rfl⟩ := shape
      have behind : ((Parts.mk first (some second) after).place 0 none 1).ending =
          first.length + (1 + (second.length + 1)) := by
        simp only [Parts.place, Option.map_some, Option.getD_some]
        omega
      rw [behind, ← List.drop_drop, List.drop_left, ← List.drop_drop, ← List.drop_drop]
      simp

end Block

namespace Walker

open Block

variable {State : Type} (walker : Walker State)

theorem branch_eq {items : List Item} {parts : Parts} (composed : parts.Compose items)
    (opening : Item) (state : State) (name : String) (wantsDefined : Bool) :
    walker.branch state (opening :: items) (parts.place 0 none 1) name wantsDefined =
      parts.branch (walker.isDefined state name == wantsDefined) := by
  unfold branch Parts.branch
  rw [slice_then_range composed, slice_else_range composed]

/-- A block that cannot be cut fails. Otherwise its chosen branch is prepared and walked, and
the walk goes on with what follows the block. -/
theorem walk_block {item : Item} {name : String} {wantsDefined : Bool}
    (role : item.role = .condition name wantsDefined) (rest : List Item) (state : State) :
    walker.walk (item :: rest) state =
      match cut item.line.location rest 0 false with
      | .error diagnostic => (.error diagnostic, state)
      | .ok parts =>
          match walker.prepare (parts.branch (walker.isDefined state name == wantsDefined))
              state with
          | (.error diagnostic, state) => (.error diagnostic, state)
          | (.ok level, state) =>
              match walker.walk level state with
              | (.error diagnostic, state) => (.error diagnostic, state)
              | (.ok inner, state) =>
                  ((walker.walk parts.after state).1.map (inner ++ ·),
                    (walker.walk parts.after state).2) := by
  have closed := close_eq_cut 0 item.line.location rest 1 0 none
  rw [walk, role]
  simp only
  cases found : cut item.line.location rest 0 false with
  | error diagnostic =>
      simp only [Option.isSome_none, found, Except.map] at closed
      split
      · next same => rw [closed] at same; cases same; rfl
      · next same => rw [closed] at same; cases same
  | ok parts =>
      have composed := (compose_of_cut found).1
      simp only [Option.isSome_none, found, Except.map] at closed
      split
      · next same => rw [closed] at same; cases same
      · next block same =>
          obtain rfl := Except.ok.inj (closed.symm.trans same)
          rw [branch_eq walker composed, drop_ending composed]
          simp only
          split
          · next failed => rw [failed]
          · next done => exact done ▸ rfl

/-- Induction along a walk: over the items of a level, the branches that are chosen on the
way, once they are prepared, and what follows their blocks. -/
theorem walk_induction {motive : List Item → State → Prop}
    (nil : ∀ state, motive [] state)
    (content : ∀ item rest state, item.role = .content → motive rest state →
      motive (item :: rest) state)
    (passed : ∀ item rest state, item.role = .passed → motive rest state →
      motive (item :: rest) state)
    (consumed : ∀ item rest state, item.role = .consumed → motive rest state →
      motive (item :: rest) state)
    (misplaced : ∀ item rest state fault, item.role = .misplaced fault →
      motive (item :: rest) state)
    (block : ∀ item rest state name wantsDefined, item.role = .condition name wantsDefined →
      (∀ parts level prepared, cut item.line.location rest 0 false = .ok parts →
        walker.prepare (parts.branch (walker.isDefined state name == wantsDefined)) state =
          (.ok level, prepared) →
        motive level prepared ∧ ∀ inner walked,
          walker.walk level prepared = (.ok inner, walked) → motive parts.after walked) →
      motive (item :: rest) state)
    (items : List Item) (state : State) : motive items state := by
  -- The positions that the walk finds are those of the parts of a cut.
  have placed {item : Item} {rest : List Item} {parts : Parts} {block : Block}
      (found : cut item.line.location rest 0 false = .ok parts)
      (closed : close 0 item.line.location rest 1 0 none = .ok block) :
      block = parts.place 0 none 1 ∧ parts.Compose rest := by
    rw [close_eq_cut, Option.isSome_none, found] at closed
    exact ⟨(Except.ok.inj closed).symm, (compose_of_cut found).1⟩
  induction items, state using walk.induct walker with
  | case1 state => exact nil state
  | case2 item rest state role _ _ _ induction => exact content item rest state role induction
  | case3 item rest state role _ _ _ induction => exact passed item rest state role induction
  | case4 item rest state role induction => exact consumed item rest state role induction
  | case5 item rest state fault role => exact misplaced item rest state fault role
  | case6 item rest state name wantsDefined role diagnostic unclosed =>
      apply block item rest state name wantsDefined role
      intro parts level prepared found
      rw [close_eq_cut, Option.isSome_none, found] at unclosed
      cases unclosed
  | case7 item rest state name wantsDefined role position closed chosen diagnostic after failed =>
      apply block item rest state name wantsDefined role
      intro parts level prepared found preparation
      obtain ⟨rfl, composed⟩ := placed found closed
      rw [← walker.branch_eq composed item, failed] at preparation
      cases preparation
  | case8 item rest state name wantsDefined role position closed chosen level' after done
      diagnostic final failed inner =>
      apply block item rest state name wantsDefined role
      intro parts level prepared found preparation
      obtain ⟨rfl, composed⟩ := placed found closed
      rw [← walker.branch_eq composed item, done] at preparation
      cases preparation
      refine ⟨inner, ?_⟩
      intro lines walked result
      rw [failed] at result
      cases result
  | case9 item rest state name wantsDefined role position closed chosen level' after done
      lines' final result' _ _ _ inner later =>
      apply block item rest state name wantsDefined role
      intro parts level prepared found preparation
      obtain ⟨rfl, composed⟩ := placed found closed
      rw [← walker.branch_eq composed item, done] at preparation
      cases preparation
      refine ⟨inner, ?_⟩
      intro lines walked result
      rw [result'] at result
      cases result
      rwa [drop_ending composed] at later

end Walker

end FortranDeps.Preprocess

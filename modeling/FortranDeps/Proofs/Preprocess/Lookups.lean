import FortranDeps.Proofs.Preprocess.Inlining
import FortranDeps.Proofs.Preprocess.Nesting

/-!
The includes that a run looks up. A level is searched for includes before it is walked, outside of
the blocks that its own lines form. What is left stands inside of blocks of the level, also where
included lines open and close others, so an include is looked up by the first level that has it
outside of its blocks, or it stands in a branch that the walk discards.
-/

namespace FortranDeps.Preprocess

open Block

/-! Items that stand inside of blocks. -/

/-- Every item of a kind stands inside of a block. -/
def Covered (kind : Item → Bool) : List Item → (depth : Nat) → Prop
  | [], _ => True
  | item :: rest, depth =>
      (kind item = true → 0 < depth) ∧ Covered kind rest (depthAfter item depth)

section Covered

variable {kind : Item → Bool}

theorem covered_append {first rest : List Item} {depth : Nat} :
    Covered kind (first ++ rest) depth ↔
      Covered kind first depth ∧ Covered kind rest (depthThrough first depth) := by
  induction first generalizing depth with
  | nil => exact ⟨fun covered => ⟨trivial, covered⟩, fun covered => covered.2⟩
  | cons item first induction =>
      have through : depthThrough (item :: first) depth =
          depthThrough first (depthAfter item depth) := rfl
      rw [List.cons_append, Covered, Covered, induction, through, and_assoc]

theorem covered_of_none {items : List Item} (none : ∀ item ∈ items, kind item = false)
    (depth : Nat) : Covered kind items depth := by
  induction items generalizing depth with
  | nil => trivial
  | cons item rest induction =>
      obtain ⟨own, others⟩ := List.forall_mem_cons.mp none
      refine ⟨?_, induction others _⟩
      rw [own]
      exact nofun

theorem covered_apply_definitions {items : List Item} {depth : Nat}
    (covered : Covered kind items depth) (table : MacroTable) :
    Covered kind (applyDefinitions items depth table).1 depth := by
  induction items generalizing depth table with
  | nil => trivial
  | cons item rest induction =>
      rcases apply_definitions_cons item depth with ⟨update, same, applied⟩ | kept
      · have later := covered.2
        rw [same] at later
        rw [applied]
        exact induction later _
      · rw [kept]
        exact ⟨covered.1, induction covered.2 table⟩

theorem Covered.after {items : List Item} {parts : Parts} (shaped : Shaped 0 parts items)
    (covered : Covered kind items 1) : Covered kind parts.after 0 := by
  cases shaped with
  | single inFirst closes =>
      have rest := (covered_append.mp covered).2
      rw [depth_through_enclosed inFirst 1] at rest
      have later := rest.2
      rwa [depth_after_end _ closes] at later
  | double inFirst turns inSecond closes =>
      have rest := (covered_append.mp covered).2
      rw [depth_through_enclosed inFirst 1] at rest
      have second := rest.2
      rw [depth_after_alternative _ turns] at second
      have rest := (covered_append.mp second).2
      rw [depth_through_enclosed inSecond 1] at rest
      have later := rest.2
      rwa [depth_after_end _ closes] at later

end Covered

/-! Includes and their number. -/

/-- The number of includes at a location. -/
def includesAt (location : Location) (items : List Item) : Nat :=
  items.countP fun item => item.isInclude && item.line.location == location

section Includes

variable (location : Location)

theorem includes_at_append (first rest : List Item) :
    includesAt location (first ++ rest) = includesAt location first + includesAt location rest :=
  List.countP_append

theorem includes_at_plain {item : Item} (plain : item.isInclude = false) (rest : List Item) :
    includesAt location (item :: rest) = includesAt location rest := by
  unfold includesAt
  rw [List.countP_cons_of_neg (by simp [plain])]

theorem includes_at_none {items : List Item} (none : ∀ item ∈ items, item.isInclude = false) :
    includesAt location items = 0 := by
  apply List.countP_eq_zero.mpr
  intro item member
  simp [none item member]

theorem includes_at_apply_definitions (items : List Item) (depth : Nat) (table : MacroTable) :
    includesAt location (applyDefinitions items depth table).1 = includesAt location items := by
  fun_induction applyDefinitions items depth table with
  | case1 => rfl
  | case2 item rest table name value directive induction
  | case3 item rest table name directive induction =>
      rw [induction, includes_at_plain location (by simp [Item.isInclude, directive])]
  | case4 item rest depth table later final result _ _ induction =>
      unfold includesAt at induction ⊢
      rw [List.countP_cons, List.countP_cons, induction]

end Includes

theorem included_items_plain {tree : FileTree} {paths : List Path} {name : String}
    {location : Location} {included : List Item}
    (read : includedItems tree paths name location = .ok included) :
    ∀ item ∈ included, item.isInclude = false := by
  have none := include_count_included_items read
  intro item member
  exact Bool.eq_false_iff.mpr (List.countP_eq_zero.mp none item member)

/-- The includes that are left by a search stand inside of blocks. -/
theorem covered_splice {tree : FileTree} {paths : List Path} {items spliced : List Item}
    {depth real : Nat} (done : (splice tree paths items depth).1 = .ok spliced)
    (less : depth ≤ real) : Covered Item.isInclude spliced real := by
  -- The counter of the search is at most the real depth: it is zero where lines are included.
  fun_induction splice tree paths items depth generalizing spliced real with
  | case1 =>
      cases done
      trivial
  | case2 => cases done
  | case3 item rest name directive included read later loaded result induction =>
      rw [result] at induction
      obtain ⟨tail, rfl, rfl⟩ := map_eq_ok.mp done
      apply covered_append.mpr
      exact ⟨covered_of_none (included_items_plain read) real, induction rfl (Nat.zero_le _)⟩
  | case4 item rest depth later loaded result outside induction =>
      obtain ⟨tail, found, rfl⟩ := map_eq_ok.mp done
      refine ⟨?_, induction found (depth_after_mono item less)⟩
      intro found
      obtain ⟨name, directive⟩ := Item.directive_of_is_include found
      rcases Nat.eq_zero_or_pos depth with rfl | positive
      · exact absurd rfl (outside name directive)
      · omega

theorem Item.is_include_of_directive {item : Item} {name : String}
    (directive : item.directive = some (.includeFile name)) : item.isInclude = true := by
  unfold Item.isInclude
  rw [directive]

theorem Item.include_outside_or (item : Item) (depth : Nat) :
    (∃ name, item.directive = some (.includeFile name) ∧ depth = 0) ∨
      item.isInclude = false ∨ 0 < depth := by
  cases isInclude : item.isInclude with
  | false => exact .inr (.inl rfl)
  | true =>
      obtain ⟨name, directive⟩ := Item.directive_of_is_include isInclude
      rcases Nat.eq_zero_or_pos depth with zero | positive
      · exact .inl ⟨name, directive, zero⟩
      · exact .inr (.inr positive)

theorem splice_accounts (tree : FileTree) (paths : List Path) (items : List Item) (depth : Nat)
    (location : Location) :
    (splice tree paths items depth).2.count location ≤ includesAt location items ∧
    ∀ spliced, (splice tree paths items depth).1 = .ok spliced →
      (splice tree paths items depth).2.count location + includesAt location spliced =
        includesAt location items := by
  induction items generalizing depth with
  | nil =>
      constructor
      · exact Nat.le_refl 0
      · intro spliced done
        cases done
        rfl
  | cons item rest induction =>
      rcases item.include_outside_or depth with ⟨name, directive, rfl⟩ | other
      · have isInclude := Item.is_include_of_directive directive
        obtain ⟨most, equals⟩ := induction 0
        have counted : includesAt location (item :: rest) =
            includesAt location rest + if item.line.location == location then 1 else 0 := by
          simp [includesAt, List.countP_cons, isInclude]
        rw [splice_include _ _ directive, counted]
        cases read : includedItems tree paths name item.line.location with
        | error diagnostic =>
            constructor
            · rw [List.count_singleton]
              omega
            · intro spliced done
              cases done
        | ok included =>
            have none := includes_at_none location (included_items_plain read)
            constructor
            · rw [List.count_cons]
              omega
            · intro spliced done
              obtain ⟨tail, later, rfl⟩ := map_eq_ok.mp done
              have equal := equals tail later
              rw [List.count_cons, includes_at_append]
              omega
      · obtain ⟨most, equals⟩ := induction (depthAfter item depth)
        rw [splice_other _ _ other]
        dsimp only
        have cons (rest : List Item) : includesAt location (item :: rest) =
            includesAt location [item] + includesAt location rest :=
          includes_at_append location [item] rest
        constructor
        · rw [cons rest]
          omega
        · intro spliced done
          obtain ⟨tail, later, rfl⟩ := map_eq_ok.mp done
          have equal := equals tail later
          rw [cons rest, cons tail]
          omega

theorem prepare_level_accounts {tree : FileTree} {paths : List Path} {items : List Item}
    {progress after : Progress} {result : Except Diagnostic (List Item)}
    (done : prepareLevel tree paths items progress = (result, after)) (location : Location) :
    after.loaded.count location ≤ progress.loaded.count location + includesAt location items ∧
    ∀ level, result = .ok level →
      after.loaded.count location + includesAt location level =
        progress.loaded.count location + includesAt location items := by
  obtain ⟨most, equals⟩ := splice_accounts tree paths items 0 location
  unfold prepareLevel at done
  split at done
  · next diagnostic loaded spliced =>
      cases done
      rw [spliced] at most
      dsimp only at most
      constructor
      · rw [List.count_append]
        omega
      · exact nofun
  · next spliced loaded found =>
      cases done
      rw [found] at most equals
      have equal := equals spliced rfl
      dsimp only at most equal
      constructor
      · rw [List.count_append]
        omega
      · intro level same
        cases same
        rw [List.count_append, includes_at_apply_definitions]
        omega

theorem covered_prepare_level {tree : FileTree} {paths : List Path} {items level : List Item}
    {progress after : Progress}
    (done : prepareLevel tree paths items progress = (.ok level, after)) :
    Covered Item.isInclude level 0 := by
  unfold prepareLevel at done
  split at done
  · cases done
  · next spliced loaded found =>
      cases done
      apply covered_apply_definitions
      exact covered_splice (congrArg Prod.fst found) (Nat.le_refl 0)

/-! The branches that a walk discards. -/

namespace Walker

variable {State : Type}

/-- The items of the branches that are not chosen, as far as the walk goes. -/
def discarded (walker : Walker State) : List Item → State → List Item
  | [], _ => []
  | item :: rest, state =>
      match item.role with
      | .content | .passed | .consumed => discarded walker rest state
      | .misplaced _ => []
      | .condition name wantsDefined =>
          match _closed : Block.close 0 item.line.location rest 1 0 none with
          | .error _ => []
          | .ok block =>
              let chosen := walker.branch state (item :: rest) block name wantsDefined
              walker.branch state (item :: rest) block name (!wantsDefined) ++
                match _prepared : walker.prepare chosen state with
                | (.error _, _) => []
                | (.ok level, state) =>
                    discarded walker level state ++
                      match walker.walk level state with
                      | (.error _, _) => []
                      | (.ok _, state) => discarded walker (rest.drop block.ending) state
termination_by items => (includeCount items, items.length)
decreasing_by
  · exact rest_lighter item (List.Sublist.refl rest)
  · exact branch_lighter walker _ (List.cons_ne_nil item rest) block
      (Block.le_ending_of_close _closed) name wantsDefined _prepared
  · exact rest_lighter item (List.drop_sublist _ _)

variable (walker : Walker State)

theorem discarded_straight {item : Item}
    (straight : item.role = .content ∨ item.role = .passed ∨ item.role = .consumed)
    (rest : List Item) (state : State) :
    walker.discarded (item :: rest) state = walker.discarded rest state := by
  rcases straight with role | role | role <;> rw [discarded, role]

theorem discarded_misplaced {item : Item} {fault : StructureFault}
    (role : item.role = .misplaced fault) (rest : List Item) (state : State) :
    walker.discarded (item :: rest) state = [] := by
  rw [discarded, role]

theorem discarded_block {item : Item} {name : String} {wantsDefined : Bool}
    (role : item.role = .condition name wantsDefined) (rest : List Item) (state : State) :
    walker.discarded (item :: rest) state =
      match cut item.line.location rest 0 false with
      | .error _ => []
      | .ok parts =>
          parts.branch (!(walker.isDefined state name == wantsDefined)) ++
            match walker.prepare (parts.branch (walker.isDefined state name == wantsDefined))
                state with
            | (.error _, _) => []
            | (.ok level, state) =>
                walker.discarded level state ++
                  match walker.walk level state with
                  | (.error _, _) => []
                  | (.ok _, state) => walker.discarded parts.after state := by
  have closed := close_eq_cut 0 item.line.location rest 1 0 none
  have other (parts : Parts) : parts.branch (walker.isDefined state name == !wantsDefined) =
      parts.branch (!(walker.isDefined state name == wantsDefined)) := by
    cases walker.isDefined state name <;> cases wantsDefined <;> rfl
  rw [discarded, role]
  simp only
  cases found : cut item.line.location rest 0 false with
  | error diagnostic =>
      simp only [Option.isSome_none, found, Except.map] at closed
      split
      · rfl
      · next same => rw [closed] at same; cases same
  | ok parts =>
      have composed := (compose_of_cut found).1
      simp only [Option.isSome_none, found, Except.map] at closed
      split
      · next same => rw [closed] at same; cases same
      · next block same =>
          obtain rfl := Except.ok.inj (closed.symm.trans same)
          rw [branch_eq walker composed, branch_eq walker composed, drop_ending composed, other]
          simp only
          congr 1
          split
          · next failed => rw [failed]
          · next done => exact done ▸ rfl

end Walker

theorem includes_at_parts {depth : Nat} {parts : Parts} {items : List Item}
    (shaped : Shaped depth parts items) (holds : Bool) (location : Location) :
    includesAt location items = includesAt location (parts.branch holds) +
      includesAt location (parts.branch (!holds)) + includesAt location parts.after := by
  have plain {item : Item} {directive : Directive} (found : item.directive = some directive)
      (other : ∀ target, directive ≠ .includeFile target) : item.isInclude = false := by
    unfold Item.isInclude
    split
    · next target same => exact absurd (Option.some.inj (found.symm.trans same)) (other target)
    · rfl
  cases shaped with
  | single inFirst closes =>
      have ending := plain closes nofun
      rw [includes_at_append, includes_at_plain location ending]
      cases holds <;> simp [Parts.branch, includesAt]
  | double inFirst turns inSecond closes =>
      have ending := plain closes nofun
      have middle := plain turns nofun
      rw [includes_at_append, includes_at_plain location middle, includes_at_append,
        includes_at_plain location ending]
      cases holds <;> simp [Parts.branch] <;> omega

/-- Every include of a level that is walked to its end is looked up or discarded, and no include
is both. -/
theorem walk_accounts {tree : FileTree} {paths : List Path} {items : List Item}
    {progress : Progress} {result : Except Diagnostic (List Line) × Progress}
    (run : (walker tree paths).Run items progress result)
    (covered : Covered Item.isInclude items 0) (location : Location) :
    result.2.loaded.count location +
        includesAt location ((walker tree paths).discarded items progress) ≤
      progress.loaded.count location + includesAt location items ∧
    ∀ output, result.1 = .ok output →
      result.2.loaded.count location +
          includesAt location ((walker tree paths).discarded items progress) =
        progress.loaded.count location + includesAt location items := by
  -- The item that opens a block is no include, and the others are in one of its parts.
  have opening {item : Item} {rest : List Item} {name : String} {wantsDefined : Bool}
      {parts : Parts} (role : item.role = .condition name wantsDefined)
      (found : cut item.line.location rest 0 false = .ok parts) (holds : Bool) :
      includesAt location (item :: rest) = includesAt location (parts.branch holds) +
        includesAt location (parts.branch (!holds)) + includesAt location parts.after := by
    rw [includes_at_plain location (Item.not_include_of_role (by simp [role])),
      includes_at_parts (shaped_of_cut found)]
  induction run with
  | nil progress =>
      rw [Walker.discarded]
      exact ⟨Nat.le_refl _, fun _ _ => rfl⟩
  | @straight item rest progress result roles later induction =>
      have plain : item.isInclude = false := by
        cases isInclude : item.isInclude with
        | false => rfl
        | true => exact absurd (covered.1 isInclude) (Nat.lt_irrefl 0)
      have tail := covered.2
      rw [depth_after_straight _ roles] at tail
      obtain ⟨most, equals⟩ := induction tail
      rw [Walker.discarded_straight _ roles, includes_at_plain location plain]
      refine ⟨most, ?_⟩
      intro output done
      obtain ⟨found, done, -⟩ := map_eq_ok.mp done
      exact equals found done
  | misplaced rest progress role =>
      rw [Walker.discarded_misplaced _ role]
      exact ⟨Nat.le_add_right _ _, nofun⟩
  | unclosed progress role found =>
      rw [Walker.discarded_block _ role, found]
      exact ⟨Nat.le_add_right _ _, nofun⟩
  | @refused item rest progress after name wantsDefined parts diagnostic role found preparation =>
      obtain ⟨most, -⟩ := prepare_level_accounts preparation location
      have parted := opening role found
        ((walker tree paths).isDefined progress name == wantsDefined)
      rw [Walker.discarded_block _ role, found]
      simp only [preparation, List.append_nil]
      exact ⟨by omega, nofun⟩
  | @failed item rest level progress prepared final name wantsDefined parts diagnostic role found
      preparation branch induction =>
      obtain ⟨-, equals⟩ := prepare_level_accounts preparation location
      have entered := equals level rfl
      obtain ⟨most, -⟩ := induction (covered_prepare_level preparation)
      have parted := opening role found
        ((walker tree paths).isDefined progress name == wantsDefined)
      rw [Walker.discarded_block _ role, found]
      simp only [preparation, branch.walk_eq, List.append_nil, includes_at_append]
      simp only at most
      exact ⟨by omega, nofun⟩
  | @block item rest level progress prepared walked name wantsDefined parts inner result role found
      preparation branch _ induction behind =>
      obtain ⟨-, equals⟩ := prepare_level_accounts preparation location
      have entered := equals level rfl
      obtain ⟨-, inside⟩ := induction (covered_prepare_level preparation)
      have left := inside inner rfl
      have opened := covered.2
      rw [depth_after_opening _ (Item.opens_block_of_condition role)] at opened
      obtain ⟨most, done⟩ := behind (opened.after (shaped_of_cut found))
      have parted := opening role found
        ((walker tree paths).isDefined progress name == wantsDefined)
      rw [Walker.discarded_block _ role, found]
      simp only [preparation, branch.walk_eq, includes_at_append]
      simp only at left
      constructor
      · omega
      · intro output succeeds
        obtain ⟨lines, succeeds, -⟩ := map_eq_ok.mp succeeds
        have equal := done lines succeeds
        omega

end FortranDeps.Preprocess

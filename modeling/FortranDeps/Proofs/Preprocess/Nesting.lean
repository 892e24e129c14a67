import FortranDeps.Proofs.Preprocess.Depth

/-!
The nesting of a source that is preprocessed without a failure. Every line of a level is met by
the walk or by a search for the end of a block, in chosen and in discarded branches alike, so
that a level which is walked to its end closes the blocks that it opens, and no others, and has
no condition on an expression at any depth.
-/

namespace FortranDeps.Preprocess

open Block

theorem map_eq_error {Fault First Second : Type} {f : First → Second}
    {result : Except Fault First} {fault : Fault} :
    result.map f = .error fault ↔ result = .error fault := by
  cases result <;> simp [Except.map]

/-- Items that the walk passes on its way take no part in the structure of blocks. -/
theorem Item.inert_of_straight {item : Item}
    (straight : item.role = .content ∨ item.role = .passed ∨ item.role = .consumed) :
    item.isInert = true := by
  unfold Item.isInert
  unfold Item.role at straight
  split <;> simp_all

theorem Item.not_include_of_role {item : Item} (other : item.role ≠ .consumed) :
    item.isInclude = false := by
  unfold Item.isInclude
  unfold Item.role at other
  split <;> simp_all

theorem Item.condition_of_opens_block {item : Item} (opens : item.opensBlock = true) :
    ∃ name wantsDefined, item.role = .condition name wantsDefined := by
  rcases Item.directive_of_opens_block opens with ⟨name, directive⟩ | ⟨name, directive⟩
  · exact ⟨name, true, by simp [Item.role, directive]⟩
  · exact ⟨name, false, by simp [Item.role, directive]⟩

namespace Block

namespace Enclosed

theorem tail {depth : Nat} {item : Item} {rest : List Item}
    (enclosed : Enclosed depth (item :: rest)) : Enclosed (depthAfter item depth) rest := by
  cases enclosed with
  | inert inert later => rwa [depth_after_inert _ inert]
  | opening opens later => rwa [depth_after_opening _ opens]
  | alternative directive later => rwa [depth_after_alternative _ directive]
  | ending directive later => rwa [depth_after_end _ directive]

theorem not_misplaced {item : Item} {rest : List Item}
    (enclosed : Enclosed 0 (item :: rest)) (fault : StructureFault) :
    item.role ≠ .misplaced fault := by
  intro role
  cases enclosed with
  | inert inert _ =>
      unfold Item.isInert at inert
      unfold Item.role at role
      split at role <;> simp_all
  | opening opens _ =>
      obtain ⟨name, wantsDefined, condition⟩ := Item.condition_of_opens_block opens
      rw [condition] at role
      cases role

theorem append {inner outer : Nat} {first rest : List Item} (inside : Enclosed inner first)
    (around : Enclosed outer rest) : Enclosed (outer + inner) (first ++ rest) := by
  induction inside with
  | nil => exact around
  | inert inert _ induction => exact .inert inert induction
  | opening opens _ induction => exact .opening opens induction
  | alternative directive _ induction => exact .alternative directive induction
  | ending directive _ induction => exact .ending directive induction

theorem cancel {inner outer : Nat} {first rest : List Item} (inside : Enclosed inner first)
    (whole : Enclosed (outer + inner) (first ++ rest)) : Enclosed outer rest := by
  induction inside with
  | nil => exact whole
  | inert inert _ induction =>
      have later := whole.tail
      rw [depth_after_inert _ inert] at later
      exact induction later
  | opening opens _ induction =>
      have later := whole.tail
      rw [depth_after_opening _ opens] at later
      exact induction later
  | alternative directive _ induction =>
      have later := whole.tail
      rw [depth_after_alternative _ directive] at later
      exact induction later
  | ending directive _ induction =>
      have later := whole.tail
      rw [depth_after_end _ directive] at later
      exact induction later

end Enclosed

/-- How a block is written from a place inside of it on, where `depth` inner blocks are open: each
branch closes its own blocks. -/
inductive Shaped (depth : Nat) : Parts → List Item → Prop where
  | single {first after : List Item} {ending : Item} (inFirst : Enclosed depth first)
      (closes : ending.directive = some .endIf) :
      Shaped depth ⟨first, none, after⟩ (first ++ ending :: after)
  | double {first second after : List Item} {middle ending : Item}
      (inFirst : Enclosed depth first) (turns : middle.directive = some .otherwise)
      (inSecond : Enclosed 0 second) (closes : ending.directive = some .endIf) :
      Shaped depth ⟨first, some second, after⟩ (first ++ middle :: (second ++ ending :: after))

theorem Shaped.keep {inner depth : Nat} {parts : Parts} {items : List Item}
    (shaped : Shaped inner parts items) {item : Item}
    (kept : ∀ first, Enclosed inner first → Enclosed depth (item :: first)) :
    Shaped depth (parts.keep [item]) (item :: items) := by
  cases shaped with
  | single inFirst closes => exact .single (kept _ inFirst) closes
  | double inFirst turns inSecond closes => exact .double (kept _ inFirst) turns inSecond closes

theorem shaped_of_cut {location : Location} {items : List Item} {depth : Nat} {turned : Bool}
    {parts : Parts} (found : cut location items depth turned = .ok parts) :
    Shaped depth parts items := by
  fun_induction cut location items depth turned generalizing parts with
  | case1 | case6 | case9 => cases found
  | case4 item rest turned directive =>
      cases found
      exact .single .nil directive
  | case7 item rest turned directive _ induction =>
      obtain ⟨⟨first, second, after⟩, later, rfl⟩ := map_eq_ok.mp found
      obtain rfl : second = none := (compose_of_cut later).2 rfl
      cases induction later with
      | single inFirst closes => exact .double .nil directive inFirst closes
  | case2 item rest depth turned name directive induction
  | case3 item rest depth turned name directive induction =>
      obtain ⟨inner, later, rfl⟩ := map_eq_ok.mp found
      have opens : item.opensBlock = true := by
        simp [Item.opensBlock, directive, Directive.opensBlock]
      exact (induction later).keep fun _ => .opening opens
  | case5 item rest turned directive depth induction =>
      obtain ⟨inner, later, rfl⟩ := map_eq_ok.mp found
      exact (induction later).keep fun _ => .ending directive
  | case8 item rest turned directive depth induction =>
      obtain ⟨inner, later, rfl⟩ := map_eq_ok.mp found
      exact (induction later).keep fun _ => .alternative directive
  | case10 item rest depth turned defined undefined ends turns unsupported induction =>
      obtain ⟨inner, later, rfl⟩ := map_eq_ok.mp found
      have inert := Item.inert_of_other defined undefined ends turns unsupported
      exact (induction later).keep fun _ => .inert inert

/-- If the items behind a block close a number of blocks around it, the items from a place
inside of the block on close the open inner blocks and the block itself as well. -/
theorem Shaped.enclosed {depth outer : Nat} {parts : Parts} {items : List Item}
    (shaped : Shaped depth parts items) (after : Enclosed outer parts.after) :
    Enclosed (outer + 1 + depth) items := by
  cases shaped with
  | single inFirst closes => exact inFirst.append (.ending closes after)
  | double inFirst turns inSecond closes =>
      exact inFirst.append (.alternative turns (inSecond.append (.ending closes after)))

/-- What follows a block closes the other blocks that are open. -/
theorem Shaped.enclosed_after {depth outer : Nat} {parts : Parts} {items : List Item}
    (shaped : Shaped depth parts items) (whole : Enclosed (outer + 1 + depth) items) :
    Enclosed outer parts.after := by
  cases shaped with
  | single inFirst closes =>
      have later := (inFirst.cancel whole).tail
      rwa [depth_after_end _ closes] at later
  | double inFirst turns inSecond closes =>
      have second := (inFirst.cancel whole).tail
      rw [depth_after_alternative _ turns] at second
      have later := (inSecond.cancel second).tail
      rwa [depth_after_end _ closes] at later

theorem Enclosed.replace_rest {depth : Nat} {item : Item} {rest other : List Item}
    (enclosed : Enclosed depth (item :: rest))
    (later : ∀ depth, Enclosed depth rest → Enclosed depth other) :
    Enclosed depth (item :: other) := by
  cases enclosed with
  | inert inert tail => exact .inert inert (later _ tail)
  | opening opens tail => exact .opening opens (later _ tail)
  | alternative directive tail => exact .alternative directive (later _ tail)
  | ending directive tail => exact .ending directive (later _ tail)

/-- Behind a first part of enclosed items the number of blocks to close is known from what that
part opens and closes. -/
theorem Enclosed.behind {before after : List Item} {depth : Nat}
    (enclosed : Enclosed depth (before ++ after)) :
    ∃ inner, Enclosed inner after ∧
      inner + before.countP Item.closesBlock = depth + before.countP Item.opensBlock := by
  induction before generalizing depth with
  | nil => exact ⟨depth, enclosed, rfl⟩
  | cons item before induction =>
      cases enclosed with
      | inert inert tail =>
          have kept := depth_after_inert 1 inert
          obtain ⟨inner, behind, count⟩ := induction tail
          refine ⟨inner, behind, ?_⟩
          rw [List.countP_cons, List.countP_cons]
          unfold depthAfter at kept
          split at kept
          · omega
          · split at kept <;> simp_all
      | opening opens tail =>
          obtain ⟨inner, behind, count⟩ := induction tail
          refine ⟨inner, behind, ?_⟩
          have closes : item.closesBlock = false := by
            rcases Item.directive_of_opens_block opens with ⟨name, directive⟩ | ⟨name, directive⟩
            · simp [Item.closesBlock, directive, Directive.closesBlock]
            · simp [Item.closesBlock, directive, Directive.closesBlock]
          simp only [List.countP_cons, opens, closes, if_true, Bool.false_eq_true, if_false]
          omega
      | alternative directive tail =>
          obtain ⟨inner, behind, count⟩ := induction tail
          refine ⟨inner, behind, ?_⟩
          simpa [List.countP_cons, Item.opensBlock, Item.closesBlock, directive,
            Directive.opensBlock, Directive.closesBlock] using count
      | ending directive tail =>
          obtain ⟨inner, behind, count⟩ := induction tail
          refine ⟨inner, behind, ?_⟩
          simp [Item.opensBlock, Item.closesBlock, directive, Directive.opensBlock,
            Directive.closesBlock]
          omega

/-- Enclosed items have no condition on an expression. -/
theorem Enclosed.supported {depth : Nat} {items : List Item} (enclosed : Enclosed depth items) :
    ∀ item ∈ items, ∀ keyword, item.directive ≠ some (.unsupported keyword) := by
  induction enclosed with
  | nil => simp
  | @inert depth item rest inert _ induction =>
      intro other member keyword
      rcases List.mem_cons.mp member with rfl | later
      · intro directive
        simp [Item.isInert, directive] at inert
      · exact induction other later keyword
  | @opening depth item rest opens _ induction =>
      intro other member keyword
      rcases List.mem_cons.mp member with rfl | later
      · intro directive
        simp [Item.opensBlock, directive, Directive.opensBlock] at opens
      · exact induction other later keyword
  | @alternative depth item rest directive _ induction
  | @ending depth item rest directive _ induction =>
      intro other member keyword
      rcases List.mem_cons.mp member with rfl | later
      · simp [directive]
      · exact induction other later keyword

end Block

namespace Walker

variable {State : Type} (walker : Walker State)

/-- The lines that an item outside of blocks stands for. -/
def output (item : Item) (state : State) : List Line :=
  match item.role with
  | .content => [walker.emit item.line state]
  | .passed => [item.line]
  | _ => []

theorem walk_straight {item : Item}
    (straight : item.role = .content ∨ item.role = .passed ∨ item.role = .consumed)
    (rest : List Item) (state : State) :
    walker.walk (item :: rest) state =
      ((walker.walk rest state).1.map (walker.output item state ++ ·),
        (walker.walk rest state).2) := by
  rcases straight with role | role | role
  · rw [walk_content _ role, output, role]
    rfl
  · rw [walk_passed _ role, output, role]
    rfl
  · rw [walk_consumed _ role, output, role]
    cases walker.walk rest state with
    | mk result final => cases result <;> rfl

/-- A walk over a level with its result: it goes on behind an item or a block, or it stops at a
misplaced directive, at a block that cannot be cut, or in the branch that is chosen. -/
inductive Run : List Item → State → Except Diagnostic (List Line) × State → Prop where
  | nil (state : State) : Run [] state (.ok [], state)
  | straight {item : Item} {rest : List Item} {state : State}
      {result : Except Diagnostic (List Line) × State}
      (roles : item.role = .content ∨ item.role = .passed ∨ item.role = .consumed)
      (later : Run rest state result) :
      Run (item :: rest) state (result.1.map (walker.output item state ++ ·), result.2)
  | misplaced {item : Item} {fault : StructureFault} (rest : List Item) (state : State)
      (role : item.role = .misplaced fault) :
      Run (item :: rest) state (.error (fault.at item.line.location), state)
  | unclosed {item : Item} {rest : List Item} {name : String} {wantsDefined : Bool}
      {diagnostic : Diagnostic} (state : State) (role : item.role = .condition name wantsDefined)
      (found : cut item.line.location rest 0 false = .error diagnostic) :
      Run (item :: rest) state (.error diagnostic, state)
  | refused {item : Item} {rest : List Item} {state after : State} {name : String}
      {wantsDefined : Bool} {parts : Parts} {diagnostic : Diagnostic}
      (role : item.role = .condition name wantsDefined)
      (found : cut item.line.location rest 0 false = .ok parts)
      (preparation : walker.prepare
        (parts.branch (walker.isDefined state name == wantsDefined)) state =
          (.error diagnostic, after)) :
      Run (item :: rest) state (.error diagnostic, after)
  | failed {item : Item} {rest level : List Item} {state prepared final : State} {name : String}
      {wantsDefined : Bool} {parts : Parts} {diagnostic : Diagnostic}
      (role : item.role = .condition name wantsDefined)
      (found : cut item.line.location rest 0 false = .ok parts)
      (preparation : walker.prepare
        (parts.branch (walker.isDefined state name == wantsDefined)) state = (.ok level, prepared))
      (branch : Run level prepared (.error diagnostic, final)) :
      Run (item :: rest) state (.error diagnostic, final)
  | block {item : Item} {rest level : List Item} {state prepared walked : State} {name : String}
      {wantsDefined : Bool} {parts : Parts} {inner : List Line}
      {result : Except Diagnostic (List Line) × State}
      (role : item.role = .condition name wantsDefined)
      (found : cut item.line.location rest 0 false = .ok parts)
      (preparation : walker.prepare
        (parts.branch (walker.isDefined state name == wantsDefined)) state = (.ok level, prepared))
      (branch : Run level prepared (.ok inner, walked))
      (behind : Run parts.after walked result) :
      Run (item :: rest) state (result.1.map (inner ++ ·), result.2)

theorem run_walk (items : List Item) (state : State) :
    walker.Run items state (walker.walk items state) := by
  induction items, state using walk_induction walker with
  | nil state =>
      rw [walk_nil]
      exact .nil state
  | content item rest state role induction | passed item rest state role induction
  | consumed item rest state role induction =>
      have roles : item.role = .content ∨ item.role = .passed ∨ item.role = .consumed := by
        simp [role]
      rw [walk_straight _ roles]
      exact .straight roles induction
  | misplaced item rest state fault role =>
      rw [walk_misplaced _ role]
      exact .misplaced rest state role
  | block item rest state name wantsDefined role induction =>
      rw [walk_block _ role]
      cases found : cut item.line.location rest 0 false with
      | error diagnostic => exact .unclosed state role found
      | ok parts =>
          dsimp only
          split
          · next preparation => exact .refused role found preparation
          · next level prepared preparation =>
              obtain ⟨inside, behind⟩ := induction parts level prepared found preparation
              split
              · next stopped =>
                  rw [stopped] at inside
                  exact .failed role found preparation inside
              · next inner walked done =>
                  rw [done] at inside
                  exact .block role found preparation inside (behind inner walked done)

namespace Run

variable {walker}
variable {items : List Item} {state : State} {result : Except Diagnostic (List Line) × State}

theorem walk_eq (run : walker.Run items state result) : walker.walk items state = result := by
  induction run with
  | nil state => exact walk_nil _ state
  | straight roles _ induction => rw [walk_straight _ roles, induction]
  | misplaced rest state role => exact walk_misplaced _ role rest state
  | unclosed state role found => rw [walk_block _ role, found]
  | refused role found preparation =>
      rw [walk_block _ role, found]
      simp only [preparation]
  | failed role found preparation _ induction =>
      rw [walk_block _ role, found]
      simp only [preparation, induction]
  | block role found preparation _ _ inside behind =>
      rw [walk_block _ role, found]
      simp only [preparation, inside, behind]

/-- A level that is walked to its end closes the blocks that it opens, and no others. -/
theorem enclosed (run : walker.Run items state result) {lines : List Line}
    (done : result.1 = .ok lines) : Enclosed 0 items := by
  induction run generalizing lines with
  | nil => exact .nil
  | straight roles _ induction =>
      obtain ⟨found, later, -⟩ := map_eq_ok.mp done
      exact .inert (Item.inert_of_straight roles) (induction later)
  | misplaced | unclosed | refused | failed => cases done
  | block role found _ _ _ _ behind =>
      obtain ⟨_, later, -⟩ := map_eq_ok.mp done
      exact .opening (Item.opens_block_of_condition role)
        ((shaped_of_cut found).enclosed (behind later))

end Run

end Walker

/-! The preparation of a level keeps what takes part in its structure. -/

theorem mem_splice {tree : FileTree} {paths : List Path} {items spliced : List Item} {depth : Nat}
    (done : (splice tree paths items depth).1 = .ok spliced) {item : Item} (member : item ∈ items)
    (plain : item.isInclude = false) : item ∈ spliced := by
  fun_induction splice tree paths items depth generalizing spliced with
  | case1 => cases member
  | case2 => cases done
  | case3 first rest name directive included _ later loaded result induction =>
      rw [result] at induction
      obtain ⟨tail, rfl, rfl⟩ := map_eq_ok.mp done
      rcases List.mem_cons.mp member with rfl | inRest
      · simp [Item.isInclude, directive] at plain
      · exact List.mem_append_right _ (induction rfl inRest)
  | case4 first rest depth _ _ _ _ induction =>
      obtain ⟨tail, found, rfl⟩ := map_eq_ok.mp done
      rcases List.mem_cons.mp member with rfl | inRest
      · exact List.mem_cons_self
      · exact List.mem_cons_of_mem _ (induction found inRest)

theorem mem_apply_definitions {items : List Item} {item : Item} (member : item ∈ items)
    (other : item.role ≠ .consumed) (depth : Nat) (table : MacroTable) :
    item ∈ (applyDefinitions items depth table).1 := by
  induction items generalizing depth table with
  | nil => cases member
  | cons first rest induction =>
      rcases List.mem_cons.mp member with rfl | inRest
      · rw [apply_definitions_other other]
        exact List.mem_cons_self
      · rcases apply_definitions_cons first depth with ⟨update, -, applied⟩ | kept
        · rw [applied]
          exact induction inRest depth (update table)
        · rw [kept]
          exact List.mem_cons_of_mem _ (induction inRest _ table)

/-- Definitions take no part in the structure of blocks. -/
theorem enclosed_apply_definitions {items : List Item} {depth inner : Nat} {table : MacroTable} :
    Enclosed inner (applyDefinitions items depth table).1 ↔ Enclosed inner items := by
  induction items generalizing depth inner table with
  | nil => exact Iff.rfl
  | cons item rest induction =>
      have kept (later : Nat) (table : MacroTable) :
          Enclosed inner (item :: (applyDefinitions rest later table).1) ↔
            Enclosed inner (item :: rest) :=
        ⟨fun enclosed => enclosed.replace_rest fun _ => induction.mp,
          fun enclosed => enclosed.replace_rest fun _ => induction.mpr⟩
      by_cases consumed : item.role = .consumed
      · rcases apply_definitions_cons item depth with ⟨update, -, applied⟩ | same
        · have inert := Item.inert_of_straight (.inr (.inr consumed))
          rw [applied, induction]
          constructor
          · exact .inert inert
          · intro enclosed
            have later := enclosed.tail
            rwa [depth_after_inert _ inert] at later
        · rw [same]
          exact kept _ table
      · rw [apply_definitions_other consumed]
        exact kept _ table

theorem mem_prepare_level {tree : FileTree} {paths : List Path} {items level : List Item}
    {progress after : Progress} (done : prepareLevel tree paths items progress = (.ok level, after))
    {item : Item} (member : item ∈ items) (other : item.role ≠ .consumed) : item ∈ level := by
  unfold prepareLevel at done
  split at done
  · cases done
  · next spliced loaded found =>
      have kept : item ∈ spliced :=
        mem_splice (congrArg Prod.fst found) member (Item.not_include_of_role other)
      cases done
      exact mem_apply_definitions kept other 0 progress.table

/-- Without includes a preparation applies and drops definitions only. -/
theorem prepare_level_plain (tree : FileTree) (paths : List Path) {items : List Item}
    (plain : ∀ item ∈ items, item.isInclude = false) (progress : Progress) :
    prepareLevel tree paths items progress =
      (.ok (applyDefinitions items 0 progress.table).1,
        ⟨(applyDefinitions items 0 progress.table).2, progress.loaded⟩) := by
  unfold prepareLevel
  rw [splice_eq_self tree paths plain]
  simp only [List.append_nil]

/-- The preparation of the whole source fails, or what it gives is walked. -/
theorem preprocess_cases (tree : FileTree) (paths : List Path) {lines : List Line}
    (seeds : MacroTable) {items : List Item} (read : Item.ofLines lines = .ok items) :
    (∃ diagnostic progress,
      prepareLevel tree paths items ⟨seeds, []⟩ = (.error diagnostic, progress) ∧
      preprocess tree paths lines seeds = (.error diagnostic, progress)) ∨
    ∃ level progress, prepareLevel tree paths items ⟨seeds, []⟩ = (.ok level, progress) ∧
      (walker tree paths).Run level progress (preprocess tree paths lines seeds) := by
  unfold preprocess
  rw [read]
  dsimp only
  cases preparation : prepareLevel tree paths items ⟨seeds, []⟩ with
  | mk result progress =>
      cases result with
      | error diagnostic => exact .inl ⟨diagnostic, progress, rfl, rfl⟩
      | ok level => exact .inr ⟨level, progress, rfl, (walker tree paths).run_walk level progress⟩

/-- A run that succeeds has read all lines, prepared the whole source as a level and walked it. -/
theorem preprocess_eq_ok {tree : FileTree} {paths : List Path} {lines : List Line}
    {seeds : MacroTable} {output : List Line}
    (done : (preprocess tree paths lines seeds).1 = .ok output) :
    ∃ items level progress, Item.ofLines lines = .ok items ∧
      prepareLevel tree paths items ⟨seeds, []⟩ = (.ok level, progress) ∧
      (walker tree paths).Run level progress (preprocess tree paths lines seeds) := by
  cases read : Item.ofLines lines with
  | error diagnostic =>
      unfold preprocess at done
      rw [read] at done
      cases done
  | ok items =>
      rcases preprocess_cases tree paths seeds read with
        ⟨diagnostic, progress, -, failed⟩ | ⟨level, progress, preparation, run⟩
      · rw [failed] at done
        cases done
      · exact ⟨items, level, progress, rfl, preparation, run⟩

end FortranDeps.Preprocess

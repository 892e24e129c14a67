import FortranDeps.Preprocess.Block

/-!
The walk over classified lines that resolves conditional blocks. What is done with a
level before it is walked, with a condition and with a surviving line is left to a
`Walker`; the walk itself only decides which lines survive and in which order.
-/

namespace FortranDeps.Preprocess

/-- The work that a list of items can still cause: includes come first, because they
bring in further lines, and the number of items second. -/
def includeCount (items : List Item) : Nat := items.countP Item.isInclude

/-- Whether a prepared level causes no more work than the level it was made from. -/
def NoHeavier (prepared level : List Item) : Prop :=
  includeCount prepared ≤ includeCount level ∧
    (includeCount prepared = includeCount level → prepared.length ≤ level.length)

theorem NoHeavier.refl (level : List Item) : NoHeavier level level :=
  ⟨Nat.le_refl _, fun _ => Nat.le_refl _⟩

/-- What a walk does on the way, over a state of its own. -/
structure Walker (State : Type) where
  isDefined : State → String → Bool
  /-- Runs on every chosen branch before it is walked. -/
  prepare : List Item → State → Except Diagnostic (List Item) × State
  /-- Turns a surviving content line into output. -/
  emit : Line → State → Line
  prepare_noHeavier : ∀ level state prepared,
    (prepare level state).1 = .ok prepared → NoHeavier prepared level

namespace Walker

variable {State : Type}

/-- The branch of a block that the state selects. -/
def branch (walker : Walker State) (state : State) (items : List Item) (block : Block)
    (name : String) (wantsDefined : Bool) : List Item :=
  if walker.isDefined state name == wantsDefined then slice items block.thenRange
  else slice items block.elseRange

theorem branch_lighter (walker : Walker State) (state : State) {items : List Item}
    (nonempty : items ≠ []) (block : Block) (positive : 0 < block.ending) (name : String)
    (wantsDefined : Bool) {prepared : List Item} {after : State}
    (result : walker.prepare (walker.branch state items block name wantsDefined) state =
      (.ok prepared, after)) :
    Prod.Lex Nat.lt Nat.lt (includeCount prepared, prepared.length)
      (includeCount items, items.length) := by
  have light := walker.prepare_noHeavier _ state prepared (by rw [result])
  have ranges : ∃ range : Nat × Nat, 0 < range.1 ∧
      walker.branch state items block name wantsDefined = slice items range := by
    unfold branch
    split
    · exact ⟨block.thenRange, Nat.succ_pos _, rfl⟩
    · refine ⟨block.elseRange, ?_, rfl⟩
      unfold Block.elseRange
      split
      · exact Nat.succ_pos _
      · exact positive
  obtain ⟨range, start, same⟩ := ranges
  rw [same] at light
  have fewer := length_slice_lt nonempty start
  have includes : includeCount (slice items range) ≤ includeCount items :=
    (slice_sublist items range).countP_le
  rcases Nat.lt_or_ge (includeCount prepared) (includeCount items) with less | more
  · exact Prod.Lex.left _ _ less
  · have equal : includeCount prepared = includeCount (slice items range) :=
      Nat.le_antisymm light.1 (Nat.le_trans includes more)
    exact Prod.Lex.right' _ (Nat.le_trans light.1 includes)
      (Nat.lt_of_le_of_lt (light.2 equal) fewer)

theorem rest_lighter (item : Item) {rest later : List Item} (sublist : later.Sublist rest) :
    Prod.Lex Nat.lt Nat.lt (includeCount later, later.length)
      (includeCount (item :: rest), (item :: rest).length) :=
  Prod.Lex.right' _ (sublist.cons item).countP_le (Nat.lt_succ_of_le sublist.length_le)

/-- Walks a prepared level and everything nested in it. The state is returned also when
the walk fails, as it stood then. -/
def walk (walker : Walker State) : List Item → State → Except Diagnostic (List Line) × State
  | [], state => (.ok [], state)
  | item :: rest, state =>
      match item.role with
      | .content =>
          let (after, final) := walk walker rest state
          (after.map (walker.emit item.line state :: ·), final)
      | .passed =>
          let (after, final) := walk walker rest state
          (after.map (item.line :: ·), final)
      | .consumed => walk walker rest state
      | .misplaced fault => (.error (fault.at item.line.location), state)
      | .condition name wantsDefined =>
          match _closed : Block.close 0 item.line.location rest 1 0 none with
          | .error diagnostic => (.error diagnostic, state)
          | .ok block =>
              let chosen := walker.branch state (item :: rest) block name wantsDefined
              match _prepared : walker.prepare chosen state with
              | (.error diagnostic, state) => (.error diagnostic, state)
              | (.ok level, state) =>
                  match walk walker level state with
                  | (.error diagnostic, state) => (.error diagnostic, state)
                  | (.ok inner, state) =>
                      let (after, final) := walk walker (rest.drop block.ending) state
                      (after.map (inner ++ ·), final)
termination_by items => (includeCount items, items.length)
decreasing_by
  · exact rest_lighter item (List.Sublist.refl rest)
  · exact rest_lighter item (List.Sublist.refl rest)
  · exact rest_lighter item (List.Sublist.refl rest)
  · exact branch_lighter walker _ (List.cons_ne_nil item rest) block
      (Block.le_ending_of_close _closed) name wantsDefined _prepared
  · exact rest_lighter item (List.drop_sublist _ _)

end Walker

end FortranDeps.Preprocess

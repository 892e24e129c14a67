import FortranDeps.Proofs.Preprocess.Nesting

/-!
Directives that do not fit together never pass. A condition on an expression fails at every depth
and in every branch, and a source without includes that is preprocessed without a failure is
balanced as it is written.
-/

namespace FortranDeps.Preprocess

open Block

/-! Lines and their items. -/

/-- The directive of a line that can be read; content has none. -/
def lineDirective? (line : Line) : Option Directive := (Directive.classify line.text).toOption.join

def lineItem (line : Line) : Item := ⟨line, lineDirective? line⟩

theorem of_line_eq {line : Line} {item : Item} (read : Item.ofLine line = .ok item) :
    item = lineItem line := by
  unfold Item.ofLine at read
  unfold lineItem lineDirective?
  split at read
  · next directive classified =>
      rw [classified]
      exact (Except.ok.inj read).symm
  · cases read

theorem of_lines_eq {lines : List Line} {items : List Item}
    (read : Item.ofLines lines = .ok items) : items = lines.map lineItem := by
  unfold Item.ofLines at read
  induction lines generalizing items with
  | nil =>
      cases read
      rfl
  | cons line rest induction =>
      rw [List.mapM_cons] at read
      cases first : Item.ofLine line with
      | error _ => rw [first] at read; cases read
      | ok item =>
          cases later : rest.mapM Item.ofLine with
          | error _ => rw [first, later] at read; cases read
          | ok others =>
              rw [first, later] at read
              obtain rfl : item :: others = items := Except.ok.inj read
              rw [List.map_cons, of_line_eq first, induction later]

theorem line_item_plain {line : Line}
    (other : ∀ target, Directive.classify line.text ≠ .ok (some (.includeFile target))) :
    (lineItem line).isInclude = false := by
  unfold Item.isInclude
  split
  · next target directive =>
      unfold lineItem lineDirective? at directive
      cases classified : Directive.classify line.text with
      | error fault => simp [classified, Except.toOption] at directive
      | ok found =>
          simp only [classified, Except.toOption, Option.join_some] at directive
          exact absurd (directive ▸ classified) (other target)
  · rfl

/-! Openings and ends of blocks among lines. -/

def openings (lines : List Line) : Nat :=
  lines.countP fun line => (lineDirective? line).any Directive.opensBlock

def endings (lines : List Line) : Nat :=
  lines.countP fun line => (lineDirective? line).any Directive.closesBlock

/-- No part of the lines from the first one on closes more blocks than it opens, all blocks are
closed at the end, and every alternative stands in a block. -/
structure Balanced (lines : List Line) : Prop where
  closed_before : ∀ before after, lines = before ++ after → endings before ≤ openings before
  closed : endings lines = openings lines
  alternative_inside : ∀ before line after, lines = before ++ line :: after →
    lineDirective? line = some .otherwise → endings before < openings before

theorem balanced_of_enclosed {lines : List Line} (enclosed : Enclosed 0 (lines.map lineItem)) :
    Balanced lines := by
  have behind (before after : List Line) (split : lines = before ++ after) :
      ∃ inner, Enclosed inner (after.map lineItem) ∧ inner + endings before = openings before := by
    rw [split, List.map_append] at enclosed
    obtain ⟨inner, later, count⟩ := enclosed.behind
    rw [List.countP_map, List.countP_map, Nat.zero_add] at count
    exact ⟨inner, later, count⟩
  constructor
  · intro before after split
    obtain ⟨inner, -, count⟩ := behind before after split
    omega
  · obtain ⟨inner, later, count⟩ := behind lines [] (List.append_nil lines).symm
    cases later
    omega
  · intro before line after split turns
    obtain ⟨inner, later, count⟩ := behind before (line :: after) split
    have directive : (lineItem line).directive = some .otherwise := turns
    cases later with
    | inert inert _ => simp [Item.isInert, directive] at inert
    | opening opens _ => simp [Item.opensBlock, directive, Directive.opensBlock] at opens
    | ending closes _ => simp [directive] at closes
    | alternative _ _ => omega

/-- Unsupported and unbalanced structure does not pass. A condition on an expression anywhere in
the source fails, whatever is included and whichever branches are chosen; and a source without
includes that is preprocessed without a failure is balanced. -/
theorem accepted_source_supported_and_balanced (tree : FileTree) (paths : List Path)
    (lines : List Line) (seeds : MacroTable) :
    (∀ line ∈ lines, ∀ keyword,
      Directive.classify line.text = .ok (some (.unsupported keyword)) →
      ∃ diagnostic, (preprocess tree paths lines seeds).1 = .error diagnostic) ∧
    ((∀ line ∈ lines, ∀ target, Directive.classify line.text ≠ .ok (some (.includeFile target))) →
      ∀ output, (preprocess tree paths lines seeds).1 = .ok output → Balanced lines) := by
  constructor
  · intro line member keyword classified
    cases result : (preprocess tree paths lines seeds).1 with
    | error diagnostic => exact ⟨diagnostic, rfl⟩
    | ok output =>
        obtain ⟨items, level, progress, read, prepared, walked⟩ := preprocess_eq_ok result
        obtain rfl := of_lines_eq read
        have directive : (lineItem line).directive = some (.unsupported keyword) := by
          simp [lineItem, lineDirective?, classified, Except.toOption]
        have inLevel : lineItem line ∈ level :=
          mem_prepare_level prepared (List.mem_map_of_mem member) (by simp [Item.role, directive])
        have enclosed := walked.enclosed result
        exact absurd directive (enclosed.supported _ inLevel keyword)
  · intro plain output result
    obtain ⟨items, level, progress, read, prepared, walked⟩ := preprocess_eq_ok result
    obtain rfl := of_lines_eq read
    have items : ∀ item ∈ lines.map lineItem, item.isInclude = false := by
      intro item member
      obtain ⟨line, inside, rfl⟩ := List.mem_map.mp member
      exact line_item_plain (plain line inside)
    rw [prepare_level_plain tree paths items] at prepared
    cases prepared
    have enclosed := walked.enclosed result
    exact balanced_of_enclosed (enclosed_apply_definitions.mp enclosed)

/-- A source with a condition on an expression in a branch that is discarded. -/
def expressionSource : List Line :=
  [⟨"#ifdef MPI", ⟨"a.F90", 1⟩⟩, ⟨"#include 'mpi.h'", ⟨"a.F90", 2⟩⟩, ⟨"#elif SERIAL", ⟨"a.F90", 3⟩⟩,
    ⟨"#endif", ⟨"a.F90", 4⟩⟩]

def alternativeItems : List Item :=
  [⟨⟨"#ifdef MPI", ⟨"a.F90", 1⟩⟩, some (.ifDefined "MPI")⟩,
    ⟨⟨"#else", ⟨"a.F90", 2⟩⟩, some .otherwise⟩, ⟨⟨"#endif", ⟨"a.F90", 3⟩⟩, some .endIf⟩]

theorem alternative_passes :
    (preprocess (FileTree.empty []) [] (alternativeItems.map (·.line)) .empty).1 = .ok [] := by
  have read : Item.ofLines (alternativeItems.map (·.line)) = .ok alternativeItems := by cbv
  have prepared : prepareLevel (FileTree.empty []) [] alternativeItems ⟨.empty, []⟩ =
      (.ok alternativeItems, ⟨.empty, []⟩) := rfl
  have branch : (walker (FileTree.empty []) []).prepare [] ⟨.empty, []⟩ =
      (.ok [], ⟨.empty, []⟩) := rfl
  unfold preprocess
  rw [read]
  simp only [prepared]
  rw [alternativeItems, Walker.walk_block _ rfl]
  simp only [cut, Except.map, Parts.turn, Parts.branch, ite_self, Option.getD_some, branch,
    Walker.walk_nil, List.append_nil, Bool.false_eq_true, if_false]

theorem expression_fails_and_alternative_balanced :
    (∃ diagnostic, (preprocess (FileTree.empty []) [] expressionSource .empty).1 =
      .error diagnostic) ∧
    (preprocess (FileTree.empty []) [] (alternativeItems.map (·.line)) .empty).1 = .ok [] ∧
    Balanced (alternativeItems.map (·.line)) := by
  refine ⟨?_, alternative_passes, ?_⟩
  · apply (accepted_source_supported_and_balanced (FileTree.empty []) [] expressionSource .empty).1
      ⟨"#elif SERIAL", ⟨"a.F90", 3⟩⟩ (by simp [expressionSource]) "elif"
    cbv
  · apply (accepted_source_supported_and_balanced (FileTree.empty []) []
      (alternativeItems.map (·.line)) .empty).2 _ [] alternative_passes
    intro line member target
    simp only [alternativeItems, List.map_cons, List.map_nil, List.mem_cons, List.not_mem_nil,
      or_false] at member
    rcases member with rfl | rfl | rfl
    · have read : Directive.classify "#ifdef MPI" = .ok (some (.ifDefined "MPI")) := by cbv
      simp [read]
    · have read : Directive.classify "#else" = .ok (some .otherwise) := by cbv
      simp [read]
    · have read : Directive.classify "#endif" = .ok (some .endIf) := by cbv
      simp [read]

end FortranDeps.Preprocess

import FortranDeps.Preprocess.Directive
import FortranDeps.Source.Line

/-!
Classified lines and the conditional blocks they form. A block runs from its opening
directive to the end directive at the same depth, with at most one alternative between.
-/

namespace FortranDeps.Preprocess

/-- A line with the directive it holds, if it is not content. -/
structure Item where
  line : Line
  directive : Option Directive
  deriving DecidableEq, Repr

namespace Item

def ofLine (line : Line) : Except Diagnostic Item :=
  match Directive.classify line.text with
  | .ok directive => .ok ⟨line, directive⟩
  | .error fault => .error (.malformedDirective line.location fault.message)

def ofLines (lines : List Line) : Except Diagnostic (List Item) := lines.mapM ofLine

def opensBlock (item : Item) : Bool := item.directive.any Directive.opensBlock

def closesBlock (item : Item) : Bool := item.directive.any Directive.closesBlock

def isInclude (item : Item) : Bool :=
  match item.directive with
  | some (.includeFile _) => true
  | _ => false

end Item

/-- What can be wrong with the order of directives. -/
inductive StructureFault where
  | secondAlternative (opening : Location)
  | neverClosed
  | unsupported (keyword : String)
  | strayAlternative
  | strayEnd
  | nestedInclude (nested including : String)
  deriving DecidableEq, Repr

def StructureFault.message : StructureFault → String
  | secondAlternative opening => "second #else for the block opened at " ++ opening.text
  | neverClosed => "conditional block is never closed: missing #endif"
  | unsupported keyword =>
      if keyword = "elif" then "#elif is not supported; nest #ifdef/#else blocks instead"
      else "#" ++ keyword ++ " is not supported; use #ifdef or #ifndef"
  | strayAlternative => "#else without matching #ifdef"
  | strayEnd => "#endif without matching #ifdef"
  | nestedInclude nested including =>
      "nested #include of '" ++ nested ++ "' inside included file '" ++ including ++ "'"

def StructureFault.at (fault : StructureFault) (location : Location) : Diagnostic :=
  .malformedDirective location fault.message

/-- How an item takes part in the walk over its level. -/
inductive Item.Role where
  | content
  | condition (name : String) (wantsDefined : Bool)
  | passed
  | consumed
  | misplaced (fault : StructureFault)

def Item.role (item : Item) : Item.Role :=
  match item.directive with
  | none => .content
  | some (.ifDefined name) => .condition name true
  | some (.ifUndefined name) => .condition name false
  | some .otherwise => .misplaced .strayAlternative
  | some .endIf => .misplaced .strayEnd
  | some (.unsupported keyword) => .misplaced (.unsupported keyword)
  | some (.unknown _) => .passed
  | some (.includeFile _) | some (.define ..) | some (.undefine _) => .consumed

/-- The positions of a block's directives in a list of items. -/
structure Block where
  opening : Nat
  alternative : Option Nat
  ending : Nat
  deriving DecidableEq, Repr

namespace Block

/-- The positions of the first branch, the end not included. -/
def thenRange (block : Block) : Nat × Nat :=
  (block.opening + 1, block.alternative.getD block.ending)

/-- The positions of the second branch, which is empty without an alternative. -/
def elseRange (block : Block) : Nat × Nat :=
  match block.alternative with
  | some alternative => (alternative + 1, block.ending)
  | none => (block.ending, block.ending)

/-- Looks for the end of a block in the items that follow its opening. `index` is the
position of the next item and `depth` the number of inner blocks that are open there. -/
def close (opening : Nat) (location : Location) :
    List Item → (index depth : Nat) → (alternative : Option Nat) → Except Diagnostic Block
  | [], _, _, _ => .error (StructureFault.neverClosed.at location)
  | item :: rest, index, depth, alternative =>
      match item.directive with
      | some (.ifDefined _) | some (.ifUndefined _) =>
          close opening location rest (index + 1) (depth + 1) alternative
      | some .endIf =>
          match depth with
          | 0 => .ok ⟨opening, alternative, index⟩
          | outer + 1 => close opening location rest (index + 1) outer alternative
      | some .otherwise =>
          match depth, alternative with
          | 0, none => close opening location rest (index + 1) 0 (some index)
          | 0, some _ => .error ((StructureFault.secondAlternative location).at item.line.location)
          | _ + 1, _ => close opening location rest (index + 1) depth alternative
      | some (.unsupported keyword) =>
          .error ((StructureFault.unsupported keyword).at item.line.location)
      | _ => close opening location rest (index + 1) depth alternative

/-- The block opened by the item at a position; none if there is no such item. -/
def find? (items : List Item) (opening : Nat) : Option (Except Diagnostic Block) :=
  match items.drop opening with
  | [] => none
  | item :: rest => some (close opening item.line.location rest (opening + 1) 0 none)

end Block

theorem Block.le_ending_of_close {opening : Nat} {location : Location} {items : List Item}
    {index depth : Nat} {alternative : Option Nat} {block : Block}
    (closed : close opening location items index depth alternative = .ok block) :
    index ≤ block.ending := by
  fun_induction close opening location items index depth alternative with
  | case4 => cases closed; exact Nat.le_refl _
  | case1 | case7 | case9 => simp at closed
  | case2 _ _ _ _ _ _ _ induction | case3 _ _ _ _ _ _ _ induction
  | case5 _ _ _ _ _ _ induction | case6 _ _ _ _ induction
  | case8 _ _ _ _ _ _ induction | case10 _ _ _ _ _ _ _ _ _ _ induction =>
      exact Nat.le_of_succ_le (induction closed)

/-- The items at the positions of a range. -/
def slice (items : List Item) (range : Nat × Nat) : List Item :=
  (items.drop range.1).take (range.2 - range.1)

theorem slice_sublist (items : List Item) (range : Nat × Nat) :
    (slice items range).Sublist items :=
  (List.take_sublist _ _).trans (List.drop_sublist _ _)

theorem length_slice_lt {items : List Item} {range : Nat × Nat}
    (nonempty : items ≠ []) (start : 0 < range.1) : (slice items range).length < items.length := by
  have positive : 0 < items.length := List.length_pos_iff.mpr nonempty
  simp only [slice, List.length_take, List.length_drop]
  omega

end FortranDeps.Preprocess

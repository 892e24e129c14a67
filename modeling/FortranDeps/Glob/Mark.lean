import FortranDeps.Glob.Pattern

/-!
The marks of a written glob: what each stretch of its text is on its own, before groups
and double stars are understood from their surroundings.
-/

namespace FortranDeps.Glob

/-- What can be wrong with a written glob. -/
inductive Fault where
  | unclosedClass
  | invalidRange (first last : Char)
  | unopenedGroup
  | unclosedGroup
  | danglingEscape
  deriving DecidableEq, Repr

def Fault.message : Fault → String
  | unclosedClass => "unclosed character class; missing ']'"
  | invalidRange first last =>
      "invalid range; '" ++ first.toString ++ "' > '" ++ last.toString ++ "'"
  | unopenedGroup =>
      "unopened alternate group; missing '\x7b' (maybe escape '\x7d' with '[\x7d]'?)"
  | unclosedGroup =>
      "unclosed alternate group; missing '\x7d' (maybe escape '\x7b' with '[\x7b]'?)"
  | danglingEscape => "dangling '\\'"

inductive Mark where
  | literal (c : Char)
  /-- A character after a backslash, which has no other meaning than itself. -/
  | escaped (c : Char)
  | question
  | star
  | doubleStar
  | oneOf (bytes : ByteClass)
  | openGroup
  | comma
  | closeGroup
  /-- The place where reading ends with a fault. -/
  | broken (fault : Fault)
  deriving DecidableEq, Repr

/-- A character class while it is read: its ranges, last one first, and whether a dash
that may join two ends was the last character. -/
structure OpenClass where
  negated : Bool
  ranges : List (Char × Char)
  inRange : Bool

/-- What a character does to an open class. -/
inductive ClassStep where
  | more (state : OpenClass)
  | done (ranges : List (Char × Char))
  | failed (fault : Fault)

namespace OpenClass

def add (state : OpenClass) (c : Char) : OpenClass :=
  { state with ranges := (c, c) :: state.ranges, inRange := false }

/-- Makes a character the end of the last range. -/
def extend (state : OpenClass) (c : Char) : ClassStep :=
  match state.ranges with
  | [] => .more (state.add c)
  | (first, _) :: rest =>
      if c < first then .failed (.invalidRange first c)
      else .more { state with ranges := (first, c) :: rest, inRange := false }

/-- A bracket or dash in first place stands for itself, and so does a dash at the end. -/
def step (state : OpenClass) (c : Char) : ClassStep :=
  if state.ranges.isEmpty then .more (state.add c)
  else if c = ']' then
    .done (if state.inRange then ('-', '-') :: state.ranges else state.ranges).reverse
  else if state.inRange then state.extend c
  else if c = '-' then .more { state with inRange := true }
  else .more (state.add c)

end OpenClass

/-- The bytes that a range of characters accepts: the encodings of its ends side by side,
with a range from the last byte of the first to the first byte of the last. -/
def byteRanges (range : Char × Char) : List (UInt8 × UInt8) :=
  let single (byte : UInt8) : UInt8 × UInt8 := (byte, byte)
  let first := String.utf8EncodeChar range.1
  let last := String.utf8EncodeChar range.2
  if range.1 = range.2 then first.map single
  else
    match first.reverse, last with
    | joint :: before, joined :: after =>
        before.reverse.map single ++ (joint, joined) :: after.map single
    | _, _ => []

mutual

/-- Reads the marks of a glob. -/
def marks : List Char → List Mark
  | [] => []
  | ['\\'] => [.broken .danglingEscape]
  | '\\' :: c :: rest => .escaped c :: marks rest
  | '*' :: '*' :: rest => .doubleStar :: marks rest
  | '[' :: '!' :: rest => classMarks ⟨true, [], false⟩ rest
  | '[' :: '^' :: rest => classMarks ⟨true, [], false⟩ rest
  | '[' :: rest => classMarks ⟨false, [], false⟩ rest
  | c :: rest =>
      let mark : Mark :=
        if c = '?' then .question
        else if c = '*' then .star
        else if c = '\x7b' then .openGroup
        else if c = '\x7d' then .closeGroup
        else if c = ',' then .comma
        else .literal c
      mark :: marks rest

/-- Reads the rest of a character class and the marks after it. -/
def classMarks (state : OpenClass) : List Char → List Mark
  | [] => [.broken .unclosedClass]
  | c :: rest =>
      match state.step c with
      | .more state => classMarks state rest
      | .done ranges => .oneOf ⟨state.negated, ranges.flatMap byteRanges⟩ :: marks rest
      | .failed fault => [.broken fault]

end

end FortranDeps.Glob

/-!
Patterns on bytes, and the texts they match. A pattern is tried by following all texts
that can remain after it, so no choice has to be taken back.
-/

namespace FortranDeps.Glob

/-- A set of bytes: those in one of the ranges, or those in none of them. -/
structure ByteClass where
  negated : Bool
  ranges : List (UInt8 × UInt8)
  deriving DecidableEq, Repr

def ByteClass.contains (bytes : ByteClass) (byte : UInt8) : Bool :=
  bytes.negated != bytes.ranges.any fun (first, last) => first ≤ byte && byte ≤ last

inductive Pattern where
  /-- Matches the empty text only. -/
  | empty
  | one (bytes : ByteClass)
  /-- Matches every text, slashes included. -/
  | anything
  | seq (first second : Pattern)
  | either (first second : Pattern)
  deriving DecidableEq, Repr

namespace Pattern

def suffixes : List UInt8 → List (List UInt8)
  | [] => [[]]
  | byte :: rest => (byte :: rest) :: suffixes rest

/-- The texts that can remain after a match at the start of a text. -/
def remainders : Pattern → List UInt8 → List (List UInt8)
  | empty, text => [text]
  | one bytes, text =>
      match text with
      | byte :: rest => if bytes.contains byte then [rest] else []
      | [] => []
  | anything, text => suffixes text
  | seq first second, text => ((first.remainders text).flatMap second.remainders).eraseDups
  | either first second, text => (first.remainders text ++ second.remainders text).eraseDups

def accepts (pattern : Pattern) (text : List UInt8) : Bool := (pattern.remainders text).contains []

def anyByte : Pattern := one ⟨true, []⟩

def byte (value : UInt8) : Pattern := one ⟨false, [(value, value)]⟩

def sequence : List Pattern → Pattern
  | [] => empty
  | [pattern] => pattern
  | pattern :: rest => seq pattern (sequence rest)

/-- Any of the given patterns; the empty pattern if there are none. -/
def choice : List Pattern → Pattern
  | [] => empty
  | [pattern] => pattern
  | pattern :: rest => either pattern (choice rest)

/-- A character, byte by byte. -/
def char (c : Char) : Pattern := sequence ((String.utf8EncodeChar c).map byte)

def slash : Pattern := char '/'

end Pattern

end FortranDeps.Glob

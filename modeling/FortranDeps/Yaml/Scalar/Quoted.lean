import FortranDeps.Yaml.Gap

/-!
Scalars in quotes. In single quotes only the quote itself is written in a special way,
twice. In double quotes a backslash starts an escape.
-/

namespace FortranDeps.Yaml

/-- The character that a one-letter escape stands for. -/
def simpleEscape? : Char → Option Char
  | '0' => some '\x00'
  | 'a' => some '\x07'
  | 'b' => some '\x08'
  | 't' | '\t' => some '\t'
  | 'n' => some '\n'
  | 'v' => some '\x0b'
  | 'f' => some '\x0c'
  | 'r' => some '\r'
  | 'e' => some '\x1b'
  | ' ' => some ' '
  | '"' => some '"'
  | '/' => some '/'
  | '\\' => some '\\'
  | 'N' => some '\u0085'
  | '_' => some '\u00a0'
  | 'L' => some '\u2028'
  | 'P' => some '\u2029'
  | _ => none

def hexDigit? (c : Char) : Option Nat :=
  if c.isDigit then some (c.toNat - '0'.toNat)
  else if 'a' ≤ c && c ≤ 'f' then some (c.toNat - 'a'.toNat + 10)
  else if 'A' ≤ c && c ≤ 'F' then some (c.toNat - 'A'.toNat + 10)
  else none

def hexNumber? (digits : List Char) : Option Nat :=
  digits.foldlM (fun value digit => do return 16 * value + (← hexDigit? digit)) 0

/-- The character with the code that the digits write. -/
def codedChar (digits : List Char) : Except Fault Char :=
  match hexNumber? digits with
  | none => .error .badEscape
  | some code => if code.isValidChar then .ok (Char.ofNat code) else .error .badEscape

/-- A character after a gap, before the rest of a scalar. -/
def afterGap (gap : Gap) (c : Char) : List Char × List Char → List Char × List Char
  | (text, rest) => (gap.folded ++ c :: text, rest)

/-- Reads the rest of a scalar in single quotes, and what follows it. -/
def readSingleQuoted (gap : Gap) : List Char → Except Fault (List Char × List Char)
  | [] => .error .unclosedQuotes
  | c :: rest =>
      if gap.isAtLineStart && isDocumentMarker (c :: rest) then .error .documentMarkerInQuotes
      else if isBreak c || isBlank c then readSingleQuoted (gap.add c) rest
      else if c = '\'' then
        match rest with
        | '\'' :: rest => return afterGap gap '\'' (← readSingleQuoted .none rest)
        | _ => .ok (gap.folded, rest)
      else return afterGap gap c (← readSingleQuoted .none rest)

/-- Reads the rest of a scalar in double quotes, and what follows it. -/
def readDoubleQuoted (gap : Gap) : List Char → Except Fault (List Char × List Char)
  | [] => .error .unclosedQuotes
  | c :: rest =>
      if gap.isAtLineStart && isDocumentMarker (c :: rest) then .error .documentMarkerInQuotes
      else if isBreak c || isBlank c then readDoubleQuoted (gap.add c) rest
      else if c = '"' then .ok (gap.folded, rest)
      else if c = '\\' then
        match rest with
        | 'x' :: a :: b :: rest =>
            return afterGap gap (← codedChar [a, b]) (← readDoubleQuoted .none rest)
        | 'u' :: a :: b :: c :: d :: rest =>
            return afterGap gap (← codedChar [a, b, c, d]) (← readDoubleQuoted .none rest)
        | 'U' :: a :: b :: c :: d :: e :: f :: g :: h :: rest =>
            return afterGap gap (← codedChar [a, b, c, d, e, f, g, h])
              (← readDoubleQuoted .none rest)
        | escape :: rest =>
            if isBreak escape then do
              let (text, rest) ← readDoubleQuoted .splice rest
              return (gap.folded ++ text, rest)
            else match simpleEscape? escape with
              | some c => return afterGap gap c (← readDoubleQuoted .none rest)
              | none => .error .badEscape
        | [] => .error .badEscape
      else return afterGap gap c (← readDoubleQuoted .none rest)

end FortranDeps.Yaml

/-!
Cutting a text at a separator, the lines of a text, and the number of bytes a text
takes in UTF-8.
-/

namespace FortranDeps.Text

/-- The pieces between the occurrences of a separator. There is always one more piece
than there are separators, so joining the pieces gives the text back. -/
def splitOn (separator : Char) : List Char → List (List Char)
  | [] => [[]]
  | c :: rest =>
      if c = separator then [] :: splitOn separator rest
      else match splitOn separator rest with
        | [] => [[c]]
        | piece :: others => (c :: piece) :: others

def joinWith (separator : Char) : List (List Char) → List Char
  | [] => []
  | [piece] => piece
  | piece :: others => piece ++ separator :: joinWith separator others

theorem split_on_ne_nil (separator : Char) (text : List Char) : splitOn separator text ≠ [] := by
  cases text with
  | nil => simp [splitOn]
  | cons c rest =>
      simp only [splitOn]
      split
      · simp
      · split <;> simp

/-- A carriage return right before a line feed belongs to the line end. -/
def dropReturn (line : List Char) : List Char :=
  if line.getLast? = some '\r' then line.dropLast else line

/-- The lines of a text. A line feed ends a line, with the carriage return before it if
there is one; text after the last line feed is a line of its own, taken as it stands. -/
def lines (text : List Char) : List (List Char) :=
  if text.isEmpty then []
  else match _ended : text.dropWhile (· ≠ '\n') with
    | [] => [text]
    | _ :: rest => dropReturn (text.takeWhile (· ≠ '\n')) :: lines rest
termination_by text.length
decreasing_by
  have shorter := (List.dropWhile_sublist (l := text) (· ≠ '\n')).length_le
  simp only [_ended, List.length_cons] at shorter
  omega

def byteLength : List Char → Nat
  | [] => 0
  | c :: rest => c.utf8Size + byteLength rest

theorem byte_length_append (first second : List Char) :
    byteLength (first ++ second) = byteLength first + byteLength second := by
  induction first with
  | nil => simp [byteLength]
  | cons c rest induction => simp [byteLength, induction, Nat.add_assoc]

end FortranDeps.Text

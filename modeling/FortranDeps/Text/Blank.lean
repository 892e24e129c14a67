/-!
White space, and the removal of white space from the ends of a text. Blank
characters are those with the Unicode property White_Space; control characters such
as the byte order mark or the zero width space do not have it.
-/

namespace FortranDeps.Text

def isBlank (c : Char) : Bool :=
  let code := c.toNat
  (0x09 ≤ code && code ≤ 0x0D) || code == 0x20 || code == 0x85 || code == 0xA0 ||
    code == 0x1680 || (0x2000 ≤ code && code ≤ 0x200A) || code == 0x2028 || code == 0x2029 ||
    code == 0x202F || code == 0x205F || code == 0x3000

def trimStart (text : List Char) : List Char := text.dropWhile isBlank

def trimEnd (text : List Char) : List Char := (text.reverse.dropWhile isBlank).reverse

def trim (text : List Char) : List Char := trimEnd (trimStart text)

/-- The characters up to the first blank, leading blanks not counted. -/
def firstWord (text : List Char) : List Char := (trimStart text).takeWhile (!isBlank ·)

theorem head_trim_start_not_blank {text rest : List Char} {c : Char}
    (start : trimStart text = c :: rest) : isBlank c = false := by
  have found := List.head?_dropWhile_not isBlank text
  rw [show text.dropWhile isBlank = c :: rest from start] at found
  simpa using found

end FortranDeps.Text

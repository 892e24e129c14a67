import FortranDeps.Proofs.Text.Utf8

/-!
The order of texts by their bytes in UTF-8. The byte that a character begins with tells how many
bytes it has, more of them for greater characters, and the bytes of one width carry the number of
the character from its highest bits down. So texts in the order of their characters are in the order
of their bytes.
-/

namespace FortranDeps.Text

/-- A greater character has greater bytes, whatever stands behind it. -/
theorem utf8_encode_char_lt {c d : Char} (less : c < d) (rest others : List UInt8) :
    String.utf8EncodeChar c ++ rest < String.utf8EncodeChar d ++ others := by
  have numbers : c.val.toNat < d.val.toNat := less
  have bound : d.val.toNat < 0x110000 := by
    have valid := d.valid
    unfold UInt32.isValidChar Nat.isValidChar at valid
    omega
  -- The digits of a number to the base 64, each of which fits into its byte.
  have third (number : Nat) : number / 4096 = number / 64 / 64 := by omega
  have fourth (number : Nat) : number / 262144 = number / 64 / 64 / 64 := by omega
  have carried (digit : Nat) : (digit % 64 + 128) % 256 = digit % 64 + 128 := by omega
  simp only [String.utf8EncodeChar]
  split_ifs <;>
    simp only [List.cons_append, List.nil_append, List.cons_lt_cons_iff, UInt8.lt_iff_toNat_lt,
      ← UInt8.toNat_inj, UInt8.toNat_ofNat', Nat.reducePow, third, fourth, carried] <;>
    omega

theorem utf8_lt_of_lt {first second : List Char} (less : first < second) :
    utf8 first < utf8 second := by
  induction less with
  | @nil c rest =>
      obtain ⟨lead, others, encoded, -⟩ := exists_lead c
      rw [utf8_nil, utf8_cons, encoded]
      exact .nil
  | @cons c _ _ _ induction =>
      rw [utf8_cons, utf8_cons]
      exact List.append_left_lt induction
  | rel less =>
      rw [utf8_cons, utf8_cons]
      exact utf8_encode_char_lt less _ _

/-- Texts are in the order of their bytes. -/
theorem lt_iff_utf8_lt {first second : String} :
    first < second ↔ utf8 first.toList < utf8 second.toList := by
  constructor
  · intro less
    exact utf8_lt_of_lt (String.lt_iff.mp less)
  · intro less
    by_contra notLess
    by_cases greater : second < first
    · exact List.lt_asymm less (utf8_lt_of_lt (String.lt_iff.mp greater))
    · rw [String.le_antisymm (String.not_lt.mp greater) (String.not_lt.mp notLess)] at less
      exact List.lt_irrefl _ less

end FortranDeps.Text

import FortranDeps.Proofs.Text.Runs
import FortranDeps.Text.Split

/-!
Texts as their bytes in UTF-8. An offset in bytes cuts a text only between two characters, and a
byte read as a character stands for the character that it begins, as far as classes of ASCII
characters are concerned: a character of several bytes begins with one that is in no such class.
-/

namespace FortranDeps.Text

/-- The bytes of a text. -/
def utf8 (text : List Char) : List UInt8 := (String.ofList text).toUTF8.data.toList

/-- A byte read as the character with its number. -/
def asChar (byte : UInt8) : Char := Char.ofNat byte.toNat

/-- What stands before an offset in bytes and behind it, unless it lies inside a character or
beyond the end. -/
def cutAt : Nat → List Char → Option (List Char × List Char)
  | 0, text => some ([], text)
  | _ + 1, [] => none
  | offset + 1, c :: rest =>
      if c.utf8Size ≤ offset + 1 then
        (cutAt (offset + 1 - c.utf8Size) rest).map fun (before, behind) => (c :: before, behind)
      else none

def behind? (text : List Char) (offset : Nat) : Option (List Char) :=
  (cutAt offset text).map Prod.snd

/-- The text between two offsets in bytes, if both are ones between characters. -/
def slice? (text : List Char) (start stop : Nat) : Option (List Char) :=
  if start ≤ stop then
    (behind? text start).bind fun rest => (cutAt (stop - start) rest).map Prod.fst
  else none

/-- The offset in bytes of the first occurrence of a character. -/
def find? (c : Char) (text : List Char) : Option Nat :=
  if c ∈ text then some (byteLength (text.takeWhile (· ≠ c))) else none

theorem utf8_eq (text : List Char) : utf8 text = text.flatMap String.utf8EncodeChar := by
  rw [utf8, String.toUTF8_eq_toByteArray, String.toByteArray_ofList, List.utf8Encode,
    List.data_toByteArray, List.toList_toArray]

@[simp] theorem utf8_nil : utf8 [] = [] := by simp [utf8_eq]

@[simp] theorem utf8_cons (c : Char) (rest : List Char) :
    utf8 (c :: rest) = String.utf8EncodeChar c ++ utf8 rest := by
  simp [utf8_eq]

@[simp] theorem utf8_append (first second : List Char) :
    utf8 (first ++ second) = utf8 first ++ utf8 second := by
  simp [utf8_eq]

@[simp] theorem length_utf8 (text : List Char) : (utf8 text).length = byteLength text := by
  induction text with
  | nil => rfl
  | cons c rest induction => simp [induction, byteLength]

section Cuts

variable (front middle back : List Char)

theorem cut_at_byte_length : cutAt (byteLength front) (front ++ back) = some (front, back) := by
  induction front with
  | nil => simp [byteLength, cutAt]
  | cons c rest induction =>
      have size := c.utf8Size_pos
      obtain ⟨offset, wide⟩ : ∃ offset, byteLength (c :: rest) = offset + 1 := by
        refine ⟨c.utf8Size + byteLength rest - 1, ?_⟩
        simp only [byteLength]
        omega
      have inside : c.utf8Size ≤ offset + 1 := by
        simp only [byteLength] at wide
        omega
      have left : offset + 1 - c.utf8Size = byteLength rest := by
        simp only [byteLength] at wide
        omega
      rw [wide, List.cons_append, cutAt, if_pos inside, left, induction]
      rfl

theorem behind?_byte_length : behind? (front ++ back) (byteLength front) = some back := by
  rw [behind?, cut_at_byte_length]
  rfl

theorem slice?_byte_length :
    slice? (front ++ (middle ++ back)) (byteLength front) (byteLength front + byteLength middle) =
      some middle := by
  have wide : byteLength front ≤ byteLength front + byteLength middle := Nat.le_add_right _ _
  rw [slice?, if_pos wide, behind?_byte_length, Nat.add_sub_cancel_left, Option.bind_some,
    cut_at_byte_length]
  rfl

theorem get_elem?_utf8 : (utf8 (front ++ back))[byteLength front]? = (utf8 back).head? := by
  rw [utf8_append, ← length_utf8 front, List.getElem?_append_right (Nat.le_refl _), Nat.sub_self,
    List.head?_eq_getElem?]

theorem drop_utf8 : (utf8 (front ++ back)).drop (byteLength front) = utf8 back := by
  rw [utf8_append, ← length_utf8 front, List.drop_left]

end Cuts

/-! The byte that a character begins with. -/

theorem to_nat_as_char (byte : UInt8) : (asChar byte).toNat = byte.toNat := by
  have small := byte.toNat_lt
  have valid : byte.toNat.isValidChar := .inl (by omega)
  rw [asChar, Char.ofNat, dif_pos valid]
  rfl

theorem exists_lead (c : Char) : ∃ lead others, String.utf8EncodeChar c = lead :: others ∧
    (asChar lead = c ∨ 0x80 ≤ (asChar lead).toNat ∧ 0x80 ≤ c.toNat) := by
  have value : c.val.toNat = c.toNat := rfl
  simp only [String.utf8EncodeChar, value]
  split
  · next small =>
      refine ⟨_, [], rfl, .inl ?_⟩
      rw [asChar, UInt8.toNat_ofNat', Nat.mod_eq_of_lt (by omega), Char.ofNat_toNat]
  · next large =>
      -- The leading byte of several carries its mark above the bits of the character.
      have marked : ∀ bits, bits < 0x40 → 0x80 ≤ (asChar (UInt8.ofNat (bits + 0xc0))).toNat := by
        intro bits few
        rw [to_nat_as_char, UInt8.toNat_ofNat', Nat.mod_eq_of_lt (by omega)]
        omega
      split
      · exact ⟨_, _, rfl, .inr ⟨marked _ (by omega), by omega⟩⟩
      · split
        · exact ⟨_, _, rfl, .inr ⟨marked (_ + 0x20) (by omega), by omega⟩⟩
        · exact ⟨_, _, rfl, .inr ⟨marked (_ + 0x30) (by omega), by omega⟩⟩

/-- A text in ASCII is its bytes, one by one. -/
theorem map_char_utf8 {text : List Char} (ascii : IsAscii text) :
    (utf8 text).map asChar = text := by
  induction text with
  | nil => simp
  | cons c rest induction =>
      obtain ⟨small, others⟩ := List.forall_mem_cons.mp ascii
      have single : String.utf8EncodeChar c = [UInt8.ofNat c.toNat] :=
        if_pos (show c.toNat ≤ 127 by omega)
      have own : asChar (UInt8.ofNat c.toNat) = c := by
        rw [asChar, UInt8.toNat_ofNat', Nat.mod_eq_of_lt (by omega), Char.ofNat_toNat]
      rw [utf8_cons, single, List.map_append, induction others, List.map_singleton, own]
      rfl

/-- A class of ASCII characters tells a character by its first byte. -/
theorem lead_agrees {c : Char} {lead : UInt8} (isMember : Char → Bool)
    (same : asChar lead = c ∨ 0x80 ≤ (asChar lead).toNat ∧ 0x80 ≤ c.toNat)
    (ascii : ∀ member, isMember member = true → member.toNat < 0x80) :
    isMember (asChar lead) = isMember c := by
  rcases same with same | ⟨byte, own⟩
  · rw [same]
  · have outside : ∀ other : Char, 0x80 ≤ other.toNat → isMember other = false := by
      intro other large
      cases holds : isMember other with
      | false => rfl
      | true => exact absurd (ascii other holds) (by omega)
    rw [outside _ byte, outside _ own]

end FortranDeps.Text

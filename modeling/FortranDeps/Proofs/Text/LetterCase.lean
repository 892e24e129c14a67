import FortranDeps.Proofs.Text.Runs
import FortranDeps.Text.LowerCase
import FortranDeps.Text.Split

/-!
Texts that differ in the case of ASCII letters only. No class of characters that a reader asks for
tells the two cases of such a letter apart, and the full lower case of a text is the same for both:
where the form of a letter depends on its neighbours, it depends on whether they have case and not
on which.
-/

namespace FortranDeps.Text

/-- A text with its ASCII letters in lower case. -/
def smallLetters (text : List Char) : List Char := text.map Char.toLower

/-- Two texts differ at most in the case of ASCII letters. -/
def SameLetters (first second : List Char) : Prop := smallLetters first = smallLetters second

instance (first second : List Char) : Decidable (SameLetters first second) :=
  inferInstanceAs (Decidable (smallLetters first = smallLetters second))

theorem small_letters_cons (c : Char) (rest : List Char) :
    smallLetters (c :: rest) = c.toLower :: smallLetters rest := rfl

theorem to_lower_of_large {c : Char} (large : ¬ c.toNat < 0x80) : c.toLower = c := by
  apply dif_neg
  rintro ⟨-, high⟩
  exact large (Nat.lt_of_le_of_lt (UInt32.le_iff_toNat_le.mp high) (by decide))

/-- What is the same for the two cases of every ASCII letter is the same for all characters. -/
theorem to_lower_invariant {Value : Type} (f : Char → Value)
    (ascii : ∀ code : Fin 0x80, f (Char.ofNat code).toLower = f (Char.ofNat code)) (c : Char) :
    f c.toLower = f c := by
  by_cases small : c.toNat < 0x80
  · exact ascii_cases small ascii
  · rw [to_lower_of_large small]

theorem is_blank_to_lower (c : Char) : isBlank c.toLower = isBlank c :=
  to_lower_invariant isBlank (by decide) c

theorem is_word_char_to_lower (c : Char) : isWordChar c.toLower = isWordChar c :=
  to_lower_invariant isWordChar (by decide) c

theorem is_cased_to_lower (c : Char) : isCased c.toLower = isCased c :=
  to_lower_invariant isCased (by decide) c

theorem is_case_ignorable_to_lower (c : Char) : isCaseIgnorable c.toLower = isCaseIgnorable c :=
  to_lower_invariant isCaseIgnorable (by decide) c

theorem lower_char_to_lower (c : Char) : lowerChar c.toLower = lowerChar c :=
  to_lower_invariant lowerChar (by decide) c

theorem utf8_size_to_lower (c : Char) : c.toLower.utf8Size = c.utf8Size :=
  to_lower_invariant Char.utf8Size (by decide) c

/-- A character that is no letter of ASCII is found in both cases of a text. -/
theorem to_lower_eq_iff (mark : Char)
    (ascii : ∀ code : Fin 0x80,
      decide ((Char.ofNat code).toLower = mark) = decide (Char.ofNat code = mark)) (c : Char) :
    c.toLower = mark ↔ c = mark := by
  have same := to_lower_invariant (fun c => decide (c = mark)) ascii c
  exact decide_eq_decide.mp same

theorem small_letters_eq_cons {mark : Char}
    (ascii : ∀ code : Fin 0x80,
      decide ((Char.ofNat code).toLower = mark) = decide (Char.ofNat code = mark))
    {text rest : List Char} (same : smallLetters text = mark :: rest) :
    ∃ own, text = mark :: own ∧ smallLetters own = rest := by
  cases text with
  | nil => cases same
  | cons c own =>
      obtain ⟨first, behind⟩ := List.cons.inj same
      exact ⟨own, by rw [(to_lower_eq_iff mark ascii c).mp first], behind⟩

section SmallLetters

variable {isMember : Char → Bool} (blind : ∀ c, isMember c.toLower = isMember c)
  (text : List Char)

include blind

theorem take_while_small_letters :
    (smallLetters text).takeWhile isMember = smallLetters (text.takeWhile isMember) := by
  have same : isMember ∘ Char.toLower = isMember := funext blind
  rw [smallLetters, List.takeWhile_map, same]
  rfl

theorem drop_while_small_letters :
    (smallLetters text).dropWhile isMember = smallLetters (text.dropWhile isMember) := by
  have same : isMember ∘ Char.toLower = isMember := funext blind
  rw [smallLetters, List.dropWhile_map, same]
  rfl

end SmallLetters

theorem trim_start_small_letters (text : List Char) :
    trimStart (smallLetters text) = smallLetters (trimStart text) :=
  drop_while_small_letters is_blank_to_lower text

theorem byte_length_small_letters (text : List Char) :
    byteLength (smallLetters text) = byteLength text := by
  induction text with
  | nil => rfl
  | cons c rest induction =>
      rw [small_letters_cons, byteLength, byteLength, utf8_size_to_lower, induction]

/-! Full lower case. -/

theorem meets_cased_small_letters (text : List Char) :
    meetsCased (smallLetters text) = meetsCased text := by
  unfold meetsCased
  rw [drop_while_small_letters is_case_ignorable_to_lower]
  cases text.dropWhile isCaseIgnorable with
  | nil => rfl
  | cons c rest => exact is_cased_to_lower c

theorem lower_after_small_letters (before text : List Char) :
    lowerAfter (smallLetters before) (smallLetters text) = lowerAfter before text := by
  induction text generalizing before with
  | nil => rfl
  | cons c rest induction =>
      have later := induction (c :: before)
      rw [small_letters_cons] at later
      have sigma := to_lower_eq_iff 'Σ' (by decide) c
      rw [small_letters_cons, lowerAfter, lowerAfter, later]
      simp only [sigma, meets_cased_small_letters, lower_char_to_lower]

theorem lower_small_letters (text : List Char) : lower (smallLetters text) = lower text :=
  lower_after_small_letters [] text

theorem SameLetters.lower_eq {first second : List Char} (same : SameLetters first second) :
    lower first = lower second := by
  rw [← lower_small_letters first, ← lower_small_letters second, same]

end FortranDeps.Text

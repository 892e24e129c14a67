import FortranDeps.Text.Blank
import FortranDeps.Text.WordChar
import Mathlib.Data.List.TakeWhile

/-!
Runs of characters of one class. A run that a reader takes as far as it goes is set apart by what
follows: the next character, if there is one, lies outside the class.
-/

namespace FortranDeps.Text

/-- A text does not go on with a character of the class. -/
def Stops (isMember : Char → Bool) (text : List Char) : Prop :=
  ∀ next ∈ text.head?, isMember next = false

section Runs

variable {isMember : Char → Bool} {run rest : List Char}

theorem take_while_run (members : ∀ c ∈ run, isMember c = true) (stops : Stops isMember rest) :
    (run ++ rest).takeWhile isMember = run := by
  rw [List.takeWhile_append_of_pos members]
  cases rest with
  | nil => simp
  | cons next later => simp [stops next rfl]

theorem drop_while_run (members : ∀ c ∈ run, isMember c = true) (stops : Stops isMember rest) :
    (run ++ rest).dropWhile isMember = rest := by
  rw [List.dropWhile_append_of_pos members]
  cases rest with
  | nil => rfl
  | cons next later => simp [stops next rfl]

theorem stops_drop_while (isMember : Char → Bool) (text : List Char) :
    Stops isMember (text.dropWhile isMember) := by
  intro next first
  have found := List.head?_dropWhile_not isMember text
  rw [Option.mem_def.mp first] at found
  simpa using found

theorem stops_cons {c : Char} (outside : isMember c = false) (rest : List Char) :
    Stops isMember (c :: rest) := by
  intro next first
  cases first
  exact outside

theorem Stops.append (stops : Stops isMember run) (later : run = [] → Stops isMember rest) :
    Stops isMember (run ++ rest) := by
  cases run with
  | nil => exact later rfl
  | cons next others => exact stops

end Runs

/-! Blanks. -/

def Blanks (text : List Char) : Prop := ∀ c ∈ text, isBlank c = true

theorem trim_start_blanks {lead : List Char} (blanks : Blanks lead) (text : List Char) :
    trimStart (lead ++ text) = trimStart text :=
  List.dropWhile_append_of_pos blanks

theorem trim_start_eq_self {text : List Char} (stops : Stops isBlank text) :
    trimStart text = text := by
  cases text with
  | nil => rfl
  | cons next later => simp [trimStart, stops next rfl]

theorem exists_blanks (text : List Char) : ∃ lead, Blanks lead ∧ text = lead ++ trimStart text := by
  refine ⟨text.takeWhile isBlank, ?_, ?_⟩
  · intro c member
    exact List.mem_takeWhile_imp member
  · exact List.takeWhile_append_dropWhile.symm

/-- A text with no blank at either end. -/
structure Compact (text : List Char) : Prop where
  start : Stops isBlank text
  ending : Stops isBlank text.reverse

theorem Compact.around {first middle last : List Char} (left : Compact first)
    (right : Compact last) (nonempty : first ≠ []) (other : last ≠ []) :
    Compact (first ++ middle ++ last) := by
  constructor
  · rw [List.append_assoc]
    exact left.start.append fun empty => absurd empty nonempty
  · rw [List.reverse_append]
    exact right.ending.append fun empty => absurd (List.reverse_eq_nil_iff.mp empty) other

theorem trim_around {lead core trail : List Char} (before : Blanks lead) (compact : Compact core)
    (behind : Blanks trail) : trim (lead ++ core ++ trail) = core := by
  have ended : trimEnd (core ++ trail) = core := by
    have blanks : Blanks trail.reverse := fun c member => behind c (List.mem_reverse.mp member)
    unfold trimEnd
    rw [List.reverse_append]
    change (trimStart (trail.reverse ++ core.reverse)).reverse = core
    rw [trim_start_blanks blanks, trim_start_eq_self compact.ending, List.reverse_reverse]
  unfold trim
  rw [List.append_assoc, trim_start_blanks before]
  cases core with
  | nil =>
      have none := trim_start_blanks behind []
      rw [List.append_nil] at none
      rw [List.nil_append, none]
      rfl
  | cons c rest =>
      have stops : Stops isBlank (c :: rest ++ trail) :=
        compact.start.append fun empty => absurd empty (List.cons_ne_nil c rest)
      rw [trim_start_eq_self stops, ended]

theorem trim_eq_self {text : List Char} (compact : Compact text) : trim text = text := by
  have blanks : Blanks [] := by simp [Blanks]
  have trimmed := trim_around blanks compact blanks
  rwa [List.nil_append, List.append_nil] at trimmed

/-- Every text is what its removed blanks leave, with blanks on both sides. -/
theorem exists_core (text : List Char) :
    ∃ lead trail, Blanks lead ∧ Blanks trail ∧ Compact (trim text) ∧
      text = lead ++ trim text ++ trail := by
  obtain ⟨lead, before, start⟩ := exists_blanks text
  obtain ⟨trail, behind, ending⟩ := exists_blanks (trimStart text).reverse
  have split : trimStart text = trim text ++ trail.reverse := by
    rw [← List.reverse_inj, ending, List.reverse_append, List.reverse_reverse]
    exact congrArg (trail ++ ·) (List.reverse_reverse _).symm
  refine ⟨lead, trail.reverse, before, fun c member => behind c (List.mem_reverse.mp member), ?_,
    ?_⟩
  · constructor
    · intro c first
      have stops := stops_drop_while isBlank text
      change Stops isBlank (trimStart text) at stops
      rw [split] at stops
      apply stops c
      rw [List.head?_append, Option.mem_def.mp first]
      rfl
    · rw [trim, trimEnd, List.reverse_reverse]
      exact stops_drop_while isBlank _
  · rw [List.append_assoc, ← split]
    exact start

/-! Characters of ASCII. -/

def IsAscii (text : List Char) : Prop := ∀ c ∈ text, c.toNat < 0x80

@[elab_as_elim]
theorem ascii_cases {motive : Char → Prop} {c : Char} (small : c.toNat < 0x80)
    (codes : ∀ code : Fin 0x80, motive (Char.ofNat code)) : motive c := by
  have own := codes ⟨c.toNat, small⟩
  rwa [Char.ofNat_toNat] at own

theorem is_blank_of_is_name_char {c : Char} (name : isNameChar c = true) : isBlank c = false := by
  have apart : isNameChar c = true → isBlank c = false :=
    ascii_cases (to_nat_of_is_name_char name) (by decide)
  exact apart name

theorem compact_of_names {text : List Char} (names : ∀ c ∈ text, isNameChar c = true) :
    Compact text := by
  constructor
  · intro c first
    exact is_blank_of_is_name_char (names c (List.mem_of_head? first))
  · intro c first
    exact is_blank_of_is_name_char (names c (List.mem_reverse.mp (List.mem_of_head? first)))

theorem Stops.names {text : List Char} (stops : Stops isWordChar text) : Stops isNameChar text := by
  intro next first
  by_contra name
  have word := is_word_char_of_is_name_char (eq_true_of_ne_false name)
  rw [stops next first] at word
  cases word

end FortranDeps.Text

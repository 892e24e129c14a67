import FortranDeps.Proofs.Text.Runs

/-!
Patterns of texts. The ways in which a pattern can be followed come in an order of preference: a run
takes as much as it can before it takes less, and a choice tries its first side before its second.
What a pattern finds in a text is the first way from the first place from which there is one.
-/

namespace FortranDeps.Text

inductive Pattern where
  | nothing
  /-- The start of the text. -/
  | opening
  /-- The end of the text. -/
  | ending
  | one (isMember : Char → Bool)
  /-- Any number of characters of a class, as many as possible. -/
  | run (isMember : Char → Bool)
  | both (first second : Pattern)
  /-- The first pattern, or else the second. -/
  | either (first second : Pattern)
  /-- A pattern whose text is kept under a number. -/
  | group (number : Nat) (inner : Pattern)

/-- A way through a text up to some place, with the texts of the groups on it, each with all
characters before it. -/
structure Passage where
  passed : List Char
  ahead : List Char
  groups : List (Nat × List Char × List Char)

namespace Passage

def atStart (text : List Char) : Passage := ⟨[], text, []⟩

/-- The way goes on over characters that are taken. -/
def advance (passage : Passage) (taken rest : List Char) : Passage :=
  ⟨passage.passed ++ taken, rest, passage.groups⟩

/-- Keeps the characters from where an earlier way ends. -/
def keep (passage : Passage) (number : Nat) (start : Passage) : Passage :=
  { passage with groups := passage.groups ++
      [(number, start.passed, passage.passed.drop start.passed.length)] }

/-- The text of a group, with the characters before it. -/
def group? (passage : Passage) (number : Nat) : Option (List Char × List Char) :=
  passage.groups.lookup number

end Passage

/-- The ways to take a run from the start of a text, the longest one first, each with what is
left. -/
def runs (isMember : Char → Bool) : List Char → List (List Char × List Char)
  | [] => [([], [])]
  | c :: rest =>
      if isMember c then
        (runs isMember rest).map (fun (taken, left) => (c :: taken, left)) ++ [([], c :: rest)]
      else [([], c :: rest)]

namespace Pattern

/-- Patterns one after another. -/
def all : List Pattern → Pattern
  | [] => nothing
  | first :: rest => both first (all rest)

/-- A pattern, or nothing. -/
def optional (pattern : Pattern) : Pattern := either pattern nothing

/-- The ways in which a pattern goes on from a place, in the order of preference. -/
def ways : Pattern → Passage → List Passage
  | nothing, passage => [passage]
  | opening, passage => if passage.passed.isEmpty then [passage] else []
  | ending, passage => if passage.ahead.isEmpty then [passage] else []
  | one isMember, passage =>
      match passage.ahead with
      | c :: rest => if isMember c then [passage.advance [c] rest] else []
      | [] => []
  | run isMember, passage =>
      (runs isMember passage.ahead).map fun (taken, left) => passage.advance taken left
  | both first second, passage => (first.ways passage).flatMap second.ways
  | either first second, passage => first.ways passage ++ second.ways passage
  | group number inner, passage => (inner.ways passage).map fun after => after.keep number passage

/-- The way that a pattern takes in a text. -/
def first? (pattern : Pattern) (text : List Char) : Option Passage :=
  ((List.range (text.length + 1)).flatMap fun start =>
    pattern.ways ⟨text.take start, text.drop start, []⟩).head?

/-- A pattern that is bound to the start of the text is tried there alone. -/
theorem first?_opening (pattern : Pattern) (text : List Char) :
    (both opening pattern).first? text = (pattern.ways (.atStart text)).head? := by
  have nowhere (start : Nat) (member : start ∈ (List.range text.length).map Nat.succ) :
      (both opening pattern).ways ⟨text.take start, text.drop start, []⟩ = [] := by
    obtain ⟨before, inside, rfl⟩ := List.mem_map.mp member
    cases text with
    | nil => cases List.mem_range.mp inside
    | cons c rest => rfl
  have others : ((List.range text.length).map Nat.succ).flatMap
      (fun start => (both opening pattern).ways ⟨text.take start, text.drop start, []⟩) = [] :=
    List.flatMap_eq_nil_iff.mpr nowhere
  unfold first?
  rw [List.range_succ_eq_map, List.flatMap_cons, others, List.append_nil]
  exact congrArg List.head? (List.append_nil _)

/-! The preferred way. -/

/-- The first way in which a pattern goes on. -/
def Prefers (pattern : Pattern) (passage after : Passage) : Prop :=
  (pattern.ways passage).head? = some after

section Preferred

variable {first second : Pattern} {passage middle after : Passage} {isMember : Char → Bool}
  {passed taken rest : List Char} {groups kept : List (Nat × List Char × List Char)}

theorem prefers_nothing : nothing.Prefers passage passage := rfl

theorem prefers_ending : ending.Prefers ⟨passed, [], groups⟩ ⟨passed, [], groups⟩ := rfl

theorem Prefers.both (start : first.Prefers passage middle) (later : second.Prefers middle after) :
    (first.both second).Prefers passage after := by
  obtain ⟨others, begun⟩ := List.head?_eq_some_iff.mp start
  obtain ⟨more, next⟩ := List.head?_eq_some_iff.mp later
  unfold Prefers
  rw [ways, begun, List.flatMap_cons, next]
  rfl

theorem Prefers.left (start : first.Prefers passage after) :
    (first.either second).Prefers passage after := by
  unfold Prefers at start ⊢
  rw [ways, List.head?_append, start]
  rfl

theorem Prefers.right (never : first.ways passage = []) (start : second.Prefers passage after) :
    (first.either second).Prefers passage after := by
  unfold Prefers
  rw [ways, never, List.nil_append]
  exact start

theorem Prefers.group (number : Nat)
    (inner : first.Prefers ⟨passed, taken ++ rest, groups⟩ ⟨passed ++ taken, rest, kept⟩) :
    (first.group number).Prefers ⟨passed, taken ++ rest, groups⟩
      ⟨passed ++ taken, rest, kept ++ [(number, passed, taken)]⟩ := by
  unfold Prefers at inner ⊢
  rw [ways, List.head?_map, inner, Option.map_some, Passage.keep, List.drop_left]

theorem prefers_one {c : Char} (member : isMember c = true) :
    (one isMember).Prefers ⟨passed, c :: rest, groups⟩ ⟨passed ++ [c], rest, groups⟩ := by
  unfold Prefers ways
  simp only [member, if_true]
  rfl

theorem runs_head? (members : ∀ c ∈ taken, isMember c = true) (stops : Stops isMember rest) :
    (runs isMember (taken ++ rest)).head? = some (taken, rest) := by
  induction taken with
  | nil =>
      cases rest with
      | nil => rfl
      | cons c behind =>
          have outside : isMember c = false := stops c rfl
          rw [List.nil_append, runs, outside]
          rfl
  | cons c others induction =>
      obtain ⟨member, members⟩ := List.forall_mem_cons.mp members
      rw [List.cons_append, runs, if_pos member, List.head?_append, List.head?_map,
        induction members]
      rfl

theorem prefers_run (members : ∀ c ∈ taken, isMember c = true) (stops : Stops isMember rest) :
    (run isMember).Prefers ⟨passed, taken ++ rest, groups⟩ ⟨passed ++ taken, rest, groups⟩ := by
  unfold Prefers
  rw [ways, List.head?_map, runs_head? members stops]
  rfl

end Preferred

/-! All ways. -/

/-- A pattern describes a text up to the rest of it, by whatever way and whatever is before. -/
def Reads : Pattern → List Char → List Char → Prop
  | nothing, text, rest => text = rest
  | opening, text, rest => text = rest
  | ending, text, rest => text = [] ∧ rest = []
  | one isMember, text, rest => ∃ c, isMember c = true ∧ text = c :: rest
  | run isMember, text, rest => ∃ taken, (∀ c ∈ taken, isMember c = true) ∧ text = taken ++ rest
  | both first second, text, rest => ∃ middle, first.Reads text middle ∧ second.Reads middle rest
  | either first second, text, rest => first.Reads text rest ∨ second.Reads text rest
  | group _ inner, text, rest => inner.Reads text rest

theorem mem_runs {isMember : Char → Bool} {text taken left : List Char}
    (inside : (taken, left) ∈ runs isMember text) :
    (∀ c ∈ taken, isMember c = true) ∧ text = taken ++ left := by
  induction text generalizing taken with
  | nil =>
      cases List.mem_singleton.mp inside
      exact ⟨List.forall_mem_nil _, rfl⟩
  | cons c rest induction =>
      rw [runs] at inside
      split at inside
      · next member =>
          rcases List.mem_append.mp inside with longer | none
          · obtain ⟨⟨others, behind⟩, found, same⟩ := List.mem_map.mp longer
            cases same
            obtain ⟨members, whole⟩ := induction found
            exact ⟨List.forall_mem_cons.mpr ⟨member, members⟩, congrArg (c :: ·) whole⟩
          · cases List.mem_singleton.mp none
            exact ⟨List.forall_mem_nil _, rfl⟩
      · cases List.mem_singleton.mp inside
        exact ⟨List.forall_mem_nil _, rfl⟩

theorem reads_of_mem {pattern : Pattern} {passage after : Passage}
    (way : after ∈ pattern.ways passage) : pattern.Reads passage.ahead after.ahead := by
  induction pattern generalizing passage after with
  | nothing =>
      cases List.mem_singleton.mp way
      rfl
  | opening =>
      unfold ways at way
      split at way
      · cases List.mem_singleton.mp way
        rfl
      · cases way
  | ending =>
      unfold ways at way
      split at way
      · next done =>
          cases List.mem_singleton.mp way
          exact ⟨List.isEmpty_iff.mp done, List.isEmpty_iff.mp done⟩
      · cases way
  | one isMember =>
      unfold ways at way
      split at way
      · next c rest ahead =>
          split at way
          · next member =>
              cases List.mem_singleton.mp way
              exact ⟨c, member, ahead⟩
          · cases way
      · cases way
  | run isMember =>
      obtain ⟨⟨taken, left⟩, inside, rfl⟩ := List.mem_map.mp way
      exact ⟨taken, mem_runs inside⟩
  | both first second firstReads secondReads =>
      obtain ⟨middle, start, later⟩ := List.mem_flatMap.mp way
      exact ⟨middle.ahead, firstReads start, secondReads later⟩
  | either first second firstReads secondReads =>
      rcases List.mem_append.mp way with left | right
      · exact .inl (firstReads left)
      · exact .inr (secondReads right)
  | group number inner innerReads =>
      obtain ⟨middle, found, rfl⟩ := List.mem_map.mp way
      exact @innerReads passage middle found

/-- There is no way where the pattern does not describe the text. -/
theorem ways_eq_nil {pattern : Pattern} {passage : Passage}
    (never : ∀ rest, ¬pattern.Reads passage.ahead rest) : pattern.ways passage = [] := by
  apply List.eq_nil_iff_forall_not_mem.mpr
  intro after way
  exact never after.ahead (reads_of_mem way)

end Pattern

end FortranDeps.Text

import FortranDeps.Proofs.Files.Paths

/-!
Spellings of a path. A dot between slashes and a doubled slash name nothing, so paths that differ
in these only are written alike without them. A name that is joined to a path stands behind its
components.
-/

namespace FortranDeps

namespace Text

theorem split_on_append_separator (separator : Char) (first rest : List Char) :
    splitOn separator (first ++ separator :: rest) =
      splitOn separator first ++ splitOn separator rest := by
  induction first with
  | nil => simp [splitOn]
  | cons c first induction =>
      rw [List.cons_append, splitOn, splitOn, induction]
      split
      · rfl
      · cases pieces : splitOn separator first with
        | nil => exact absurd pieces (split_on_ne_nil separator first)
        | cons piece others => rfl

theorem split_on_separator (separator : Char) (rest : List Char) :
    splitOn separator (separator :: rest) = [] :: splitOn separator rest := by
  rw [splitOn, if_pos rfl]

theorem exists_split_on_cons {separator c : Char} (differ : c ≠ separator) (rest : List Char) :
    ∃ piece others, splitOn separator (c :: rest) = (c :: piece) :: others := by
  rw [splitOn, if_neg differ]
  cases splitOn separator rest with
  | nil => exact ⟨[], [], rfl⟩
  | cons piece others => exact ⟨piece, others, rfl⟩

/-- Only the empty text has nothing but an empty piece. -/
theorem eq_nil_of_split_on {separator : Char} {text : List Char}
    (pieces : splitOn separator text = [[]]) : text = [] := by
  cases text with
  | nil => rfl
  | cons c rest =>
      by_cases same : c = separator
      · rw [same, split_on_separator] at pieces
        exact absurd (List.cons.inj pieces).2 (split_on_ne_nil separator rest)
      · obtain ⟨piece, others, split⟩ := exists_split_on_cons same rest
        rw [split] at pieces
        cases (List.cons.inj pieces).1

end Text

namespace Path

/-- The components by the first segment, which tells whether there is a root or a leading dot. -/
theorem components_of_segments {path : Path} {first : List Char} {more : List (List Char)}
    (pieces : path.segments = first :: more) (some : first = [] → more ≠ []) :
    path.components = (if first = [] then [.root] else if first = ['.'] then [.current] else []) ++
      ((first :: more).filter (!isIdle ·)).map component := by
  unfold components
  rw [pieces]
  by_cases root : first = []
  · obtain ⟨next, rest, rfl⟩ := List.exists_cons_of_ne_nil (some root)
    rw [root]
    rfl
  · by_cases dot : first = ['.']
    · rw [dot]
      rfl
    · rw [if_neg root, if_neg dot, List.nil_append]
      split
      · next shape => exact absurd (List.cons.inj shape).1 root
      · next shape => exact absurd (List.cons.inj shape).1 dot
      · rfl

/-- The segments of a text that name something. -/
def namesOf (text : List Char) : List (List Char) := (Text.splitOn '/' text).filter (!isIdle ·)

theorem names_of_append (first rest : List Char) :
    namesOf (first ++ '/' :: rest) = namesOf first ++ namesOf rest := by
  rw [namesOf, Text.split_on_append_separator, List.filter_append]
  rfl

/-- The components of a path without dots: the root, if it starts with a slash, and its names. -/
theorem dotless_components (text : List Char) :
    (ofChars text).components.filter (· != .current) =
      (if text.head? = some '/' then [.root] else []) ++ (namesOf text).map component := by
  have kept : ((namesOf text).map component).filter (· != .current) =
      (namesOf text).map component := by
    rw [List.filter_eq_self]
    intro item member
    obtain ⟨segment, -, rfl⟩ := List.mem_map.mp member
    unfold component
    split <;> rfl
  have read : (ofChars text).segments = Text.splitOn '/' text := by
    rw [segments, ofChars, String.toList_ofList]
  cases text with
  | nil => rfl
  | cons c rest =>
      by_cases slash : c = '/'
      · subst slash
        rw [components_of_segments (read.trans (Text.split_on_separator '/' rest))
          fun _ => Text.split_on_ne_nil '/' rest, ← Text.split_on_separator, List.filter_append]
        exact congrArg _ kept
      · obtain ⟨piece, others, pieces⟩ := Text.exists_split_on_cons slash rest
        have relative : (c :: rest).head? ≠ some '/' := by simpa using slash
        rw [components_of_segments (read.trans pieces) (by simp), ← pieces, List.filter_append,
          if_neg (List.cons_ne_nil c piece), if_neg relative]
        refine Eq.trans ?_ (congrArg _ kept)
        congr 1
        split <;> rfl

/-- One more dot or slash in a path that makes no difference to what it names. -/
inductive Respelling : List Char → List Char → Prop where
  | slash (before after : List Char) :
      Respelling (before ++ '/' :: after) (before ++ '/' :: '/' :: after)
  | dot (before after : List Char) :
      Respelling (before ++ '/' :: after) (before ++ '/' :: '.' :: '/' :: after)
  | firstDot {text : List Char} (relative : text.head? ≠ some '/') :
      Respelling text ('.' :: '/' :: text)
  | lastDot {text : List Char} (nonempty : text ≠ []) : Respelling text (text ++ ['/', '.'])

/-- Two paths differ in such dots and slashes only. -/
def Respelled (first second : Path) : Prop :=
  Relation.EqvGen (fun first second => Respelling first.text.toList second.text.toList)
    first second

theorem names_of_respelling {first second : List Char} (respelling : Respelling first second) :
    namesOf first = namesOf second ∧ (first.head? = some '/' ↔ second.head? = some '/') := by
  have nothing : namesOf [] = [] := rfl
  have idle : namesOf ['.'] = [] := rfl
  cases respelling with
  | slash before after =>
      have doubled : namesOf ('/' :: after) = namesOf after := names_of_append [] after
      rw [names_of_append, names_of_append, doubled]
      refine ⟨rfl, ?_⟩
      cases before <;> rfl
  | dot before after =>
      have dotted : namesOf ('.' :: '/' :: after) = namesOf after := names_of_append ['.'] after
      rw [names_of_append, names_of_append, dotted]
      refine ⟨rfl, ?_⟩
      cases before <;> rfl
  | firstDot relative =>
      refine ⟨(names_of_append ['.'] first).symm, ?_⟩
      simp [relative]
  | lastDot nonempty =>
      rw [names_of_append, idle, List.append_nil]
      refine ⟨rfl, ?_⟩
      rw [List.head?_append_of_ne_nil _ nonempty]

theorem Respelled.without_dots_eq {first second : Path} (respelled : Respelled first second) :
    first.withoutDots = second.withoutDots := by
  have chars (path : Path) : ofChars path.text.toList = path := by
    rw [ofChars, String.ofList_toList]
  induction respelled with
  | rel first second respelling =>
      obtain ⟨names, root⟩ := names_of_respelling respelling
      have components := dotless_components first.text.toList
      simp only [names, root, ← dotless_components, chars] at components
      rw [withoutDots, components, withoutDots]
  | refl path => rfl
  | symm _ _ _ induction => exact induction.symm
  | trans _ _ _ _ _ earlier later => exact earlier.trans later

end Path

end FortranDeps

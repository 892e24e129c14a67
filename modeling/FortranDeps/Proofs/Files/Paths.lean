import FortranDeps.Path
import Mathlib

/-!
Paths as they are written and as they are compared. A path that is written without dots has the
components that it was written from, so such paths are written alike if their components are
equal, and the distinct ones among them do not depend on their order.
-/

namespace FortranDeps

namespace Text

variable {separator : Char} {piece text : List Char}

theorem split_on_of_not_mem (clean : separator ∉ text) : splitOn separator text = [text] := by
  induction text with
  | nil => rfl
  | cons c rest induction =>
      rw [List.mem_cons, not_or] at clean
      rw [splitOn, if_neg (Ne.symm clean.1), induction clean.2]

theorem split_on_append (clean : separator ∉ piece) (rest : List Char) :
    splitOn separator (piece ++ separator :: rest) = piece :: splitOn separator rest := by
  induction piece with
  | nil => rw [List.nil_append, splitOn, if_pos rfl]
  | cons c piece induction =>
      rw [List.mem_cons, not_or] at clean
      rw [List.cons_append, splitOn, if_neg (Ne.symm clean.1), induction clean.2]

theorem not_mem_of_mem_split_on (member : piece ∈ splitOn separator text) : separator ∉ piece := by
  induction text generalizing piece with
  | nil =>
      rw [splitOn, List.mem_singleton] at member
      simp [member]
  | cons c rest induction =>
      rw [splitOn] at member
      split at member
      · rcases List.mem_cons.mp member with rfl | later
        · exact List.not_mem_nil
        · exact induction later
      · next differ =>
          cases pieces : splitOn separator rest with
          | nil => exact absurd pieces (split_on_ne_nil separator rest)
          | cons first others =>
              rw [pieces] at member induction
              rcases List.mem_cons.mp member with rfl | later
              · rw [List.mem_cons, not_or]
                exact ⟨Ne.symm differ, induction List.mem_cons_self⟩
              · exact induction (List.mem_cons_of_mem first later)

theorem join_with_cons (separator : Char) (piece : List Char) (others : List (List Char)) :
    joinWith separator (piece :: others) = piece ++ others.flatMap (separator :: ·) := by
  induction others generalizing piece with
  | nil => simp [joinWith]
  | cons next others induction =>
      rw [joinWith, induction, List.flatMap_cons, List.cons_append]
      simp

theorem split_on_join_with {first : List Char} {others : List (List Char)}
    (clean : ∀ piece ∈ first :: others, separator ∉ piece) :
    splitOn separator (joinWith separator (first :: others)) = first :: others := by
  induction others generalizing first with
  | nil => exact split_on_of_not_mem (clean first List.mem_cons_self)
  | cons next others induction =>
      have later : ∀ piece ∈ next :: others, separator ∉ piece := fun piece member =>
        clean piece (List.mem_cons_of_mem first member)
      rw [joinWith, split_on_append (clean first List.mem_cons_self), induction later]
      simp

end Text

namespace Path

theorem same_iff {first second : Path} :
    first.same second = true ↔ first.components = second.components := by
  unfold same
  exact beq_iff_eq

theorem same_comm (first second : Path) : first.same second = second.same first := by
  rw [Bool.eq_iff_iff, same_iff, same_iff, eq_comm]

theorem any_same_iff {paths : List Path} {path : Path} :
    paths.any (·.same path) = true ↔ path.components ∈ paths.map components := by
  rw [List.any_eq_true, List.mem_map]
  simp only [same_iff]

/-! Segments. -/

/-- A segment that names something. -/
structure IsName (segment : List Char) : Prop where
  clean : '/' ∉ segment
  busy : isIdle segment = false

theorem IsName.not_idle {segment : List Char} (name : IsName segment) :
    segment ≠ [] ∧ segment ≠ ['.'] := by
  simpa [isIdle] using name.busy

theorem text_component (segment : List Char) :
    (component segment).text = String.ofList segment := by
  unfold component
  split
  · next parent =>
      rw [parent]
      rfl
  · rfl

/-- The segments of a path that name something. -/
def names (path : Path) : List (List Char) := path.segments.filter (!isIdle ·)

theorem is_name_of_mem_names {path : Path} {segment : List Char} (member : segment ∈ path.names) :
    IsName segment := by
  obtain ⟨inside, busy⟩ := List.mem_filter.mp member
  exact ⟨Text.not_mem_of_mem_split_on inside, by simpa using busy⟩

/-- Without dots a path consists of its names, behind the root if it starts there. -/
theorem filter_components (path : Path) :
    path.components.filter (· != .current) = path.names.map component ∨
      path.components.filter (· != .current) = .root :: path.names.map component := by
  have kept : (path.names.map component).filter (· != .current) = path.names.map component := by
    rw [List.filter_eq_self]
    intro item member
    obtain ⟨segment, -, rfl⟩ := List.mem_map.mp member
    unfold component
    split <;> rfl
  unfold components
  simp only
  split
  · exact .inr (congrArg (Component.root :: ·) kept)
  · exact .inl kept
  · exact .inl kept

/-! Writing. -/

/-- The path that is written with the given characters. -/
def ofChars (text : List Char) : Path := ⟨String.ofList text⟩

section Join

variable {text segment : List Char}

theorem not_is_absolute_of_is_name (name : IsName segment) :
    isAbsolute ⟨(component segment).text⟩ = false := by
  unfold isAbsolute
  rw [text_component, String.toList_ofList]
  cases segment with
  | nil => rfl
  | cons c rest =>
      have clean := name.clean
      rw [List.mem_cons, not_or] at clean
      simp [Ne.symm clean.1]

/-- At the start and behind a slash a name is added as it is. -/
theorem join_at_once (name : IsName segment) (ending : text = [] ∨ text.getLast? = some '/') :
    (ofChars text).join (component segment).text = ofChars (text ++ segment) := by
  unfold join ofChars
  rw [not_is_absolute_of_is_name name, text_component, String.ofList_append]
  rcases ending with rfl | slash
  · rfl
  · simp [slash]

/-- Behind a name a slash comes first. -/
theorem join_behind (name : IsName segment) (some : text ≠ [])
    (ending : text.getLast? ≠ .some '/') :
    (ofChars text).join (component segment).text = ofChars (text ++ '/' :: segment) := by
  unfold join ofChars
  rw [not_is_absolute_of_is_name name, text_component]
  have parts : String.ofList (text ++ '/' :: segment) =
      String.ofList text ++ "/" ++ String.ofList segment := by
    rw [← List.singleton_append, String.ofList_append, String.ofList_append, String.append_assoc]
  simp [some, ending, parts]

theorem get_last?_name (name : IsName segment) (text : List Char) :
    (text ++ segment).getLast? ≠ .some '/' := by
  have last := List.getLast?_eq_some_getLast name.not_idle.1
  rw [List.getLast?_append, last, Option.some_or, Ne, Option.some.injEq]
  intro slash
  apply name.clean
  rw [← slash]
  exact List.getLast_mem name.not_idle.1

theorem foldl_join {segments : List (List Char)} (names : ∀ segment ∈ segments, IsName segment)
    (some : text ≠ []) (ending : text.getLast? ≠ .some '/') :
    (segments.map component).foldl (fun base component => base.join component.text)
        (ofChars text) =
      ofChars (text ++ segments.flatMap ('/' :: ·)) := by
  induction segments generalizing text with
  | nil => simp
  | cons segment rest induction =>
      obtain ⟨name, later⟩ := List.forall_mem_cons.mp names
      have last : (text ++ '/' :: segment).getLast? ≠ .some '/' := by
        rw [List.append_cons]
        exact get_last?_name name _
      rw [List.map_cons, List.foldl_cons, join_behind name some ending,
        induction later (by simp) last, List.flatMap_cons, List.append_assoc]

theorem of_components_names {segments : List (List Char)}
    (names : ∀ segment ∈ segments, IsName segment) :
    ofComponents (segments.map component) = ofChars (Text.joinWith '/' segments) := by
  cases segments with
  | nil => rfl
  | cons first rest =>
      obtain ⟨name, later⟩ := List.forall_mem_cons.mp names
      have entered : (ofChars []).join (component first).text = ofChars ([] ++ first) :=
        join_at_once name (.inl rfl)
      rw [Text.join_with_cons, ← foldl_join later name.not_idle.1 (get_last?_name name [])]
      exact congrArg (List.foldl _ · _) entered

theorem of_components_root {segments : List (List Char)}
    (names : ∀ segment ∈ segments, IsName segment) :
    ofComponents (.root :: segments.map component) =
      ofChars ('/' :: Text.joinWith '/' segments) := by
  cases segments with
  | nil => rfl
  | cons first rest =>
      obtain ⟨name, later⟩ := List.forall_mem_cons.mp names
      have entered : (ofChars ['/']).join (component first).text = ofChars (['/'] ++ first) :=
        join_at_once name (.inr rfl)
      rw [Text.join_with_cons, ← List.cons_append,
        ← foldl_join later (List.cons_ne_nil '/' first) (get_last?_name name ['/'])]
      exact congrArg (List.foldl _ · _) entered

end Join

/-! Reading. -/

theorem filter_names {segments : List (List Char)}
    (names : ∀ segment ∈ segments, IsName segment) :
    segments.filter (!isIdle ·) = segments := by
  rw [List.filter_eq_self]
  intro segment member
  simp [(names segment member).busy]

theorem components_of_chars_names {segments : List (List Char)}
    (names : ∀ segment ∈ segments, IsName segment) :
    (ofChars (Text.joinWith '/' segments)).components = segments.map component := by
  cases segments with
  | nil => rfl
  | cons first rest =>
      have clean : ∀ segment ∈ first :: rest, '/' ∉ segment := fun segment member =>
        (names segment member).clean
      have read : (ofChars (Text.joinWith '/' (first :: rest))).segments = first :: rest := by
        unfold segments ofChars
        rw [String.toList_ofList, Text.split_on_join_with clean]
      obtain ⟨filled, dotless⟩ := (names first List.mem_cons_self).not_idle
      unfold components
      rw [read, filter_names names]
      split
      · next shape => exact absurd (List.cons.inj shape).1 filled
      · next shape => exact absurd (List.cons.inj shape).1 dotless
      · rfl

theorem components_of_chars_root {segments : List (List Char)}
    (names : ∀ segment ∈ segments, IsName segment) :
    (ofChars ('/' :: Text.joinWith '/' segments)).components =
      .root :: segments.map component := by
  cases segments with
  | nil => rfl
  | cons first rest =>
      have clean : ∀ segment ∈ [] :: first :: rest, '/' ∉ segment := by
        intro segment member
        rcases List.mem_cons.mp member with rfl | inside
        · exact List.not_mem_nil
        · exact (names segment inside).clean
      have read : (ofChars ('/' :: Text.joinWith '/' (first :: rest))).segments =
          [] :: first :: rest := by
        unfold segments ofChars
        rw [String.toList_ofList]
        exact Text.split_on_join_with clean
      unfold components
      rw [read, List.filter_cons_of_neg (by simp [isIdle]), filter_names names]

theorem components_without_dots (path : Path) :
    path.withoutDots.components = path.components.filter (· != .current) := by
  have names : ∀ segment ∈ path.names, IsName segment := fun segment => is_name_of_mem_names
  unfold withoutDots
  rcases filter_components path with plain | rooted
  · rw [plain, of_components_names names, components_of_chars_names names]
  · rw [rooted, of_components_root names, components_of_chars_root names]

/-- Paths without dots are written alike if their components are equal. -/
theorem without_dots_eq {first second : Path}
    (same : first.withoutDots.components = second.withoutDots.components) :
    first.withoutDots = second.withoutDots := by
  rw [components_without_dots, components_without_dots] at same
  unfold withoutDots
  rw [same]

/-! Distinct paths. -/

theorem mem_components_distinct {paths : List Path} {components : List Component} :
    components ∈ (distinct paths).map Path.components ↔
      components ∈ paths.map Path.components := by
  induction paths with
  | nil => rfl
  | cons path rest induction =>
      simp only [distinct, List.map_cons, List.mem_cons, ← induction]
      constructor
      · rintro (same | member)
        · exact .inl same
        · obtain ⟨other, kept, rfl⟩ := List.mem_map.mp member
          exact .inr (List.mem_map_of_mem (List.mem_filter.mp kept).1)
      · rintro (same | member)
        · exact .inl same
        · by_cases same : components = path.components
          · exact .inl same
          · obtain ⟨other, there, rfl⟩ := List.mem_map.mp member
            refine .inr (List.mem_map_of_mem (List.mem_filter.mpr ⟨there, ?_⟩))
            rw [Bool.not_eq_true']
            exact Bool.eq_false_iff.mpr fun equal => same (same_iff.mp equal)

theorem distinct_append (first second : List Path) :
    distinct (first ++ second) =
      distinct first ++ (distinct second).filter fun path => !first.any (·.same path) := by
  induction first with
  | nil => simp [distinct]
  | cons path rest induction =>
      simp only [List.cons_append, distinct, induction, List.filter_append, List.filter_filter]
      congr 2
      apply List.filter_congr
      intro other _
      rw [List.any_cons, Bool.not_or, same_comm other]

theorem any_same_distinct (paths : List Path) (path : Path) :
    (distinct paths).any (·.same path) = paths.any (·.same path) := by
  rw [Bool.eq_iff_iff, any_same_iff, any_same_iff, mem_components_distinct]

theorem distinct_sublist (paths : List Path) : (distinct paths).Sublist paths := by
  induction paths with
  | nil => exact .slnil
  | cons path rest induction => exact (List.filter_sublist.trans induction).cons_cons path

/-- No two of the distinct paths have the same components. -/
theorem distinct_apart (paths : List Path) :
    (distinct paths).Pairwise fun first second => first.components ≠ second.components := by
  induction paths with
  | nil => exact .nil
  | cons path rest induction =>
      rw [distinct, List.pairwise_cons]
      refine ⟨?_, induction.filter _⟩
      intro other member same
      have differ := (List.mem_filter.mp member).2
      rw [same_iff.mpr same.symm] at differ
      cases differ

theorem distinct_nodup (paths : List Path) : (distinct paths).Nodup :=
  (distinct_apart paths).imp fun differ same => differ (congrArg components same)

theorem mem_distinct_without_dots {paths : List Path} {path : Path} :
    path ∈ distinct (paths.map withoutDots) ↔ path ∈ paths.map withoutDots := by
  refine ⟨(distinct_sublist _).mem, ?_⟩
  intro member
  obtain ⟨other, inside, same⟩ :=
    List.mem_map.mp (mem_components_distinct.mpr (List.mem_map_of_mem member))
  obtain ⟨first, -, rfl⟩ := List.mem_map.mp ((distinct_sublist _).mem inside)
  obtain ⟨second, -, rfl⟩ := List.mem_map.mp member
  rwa [without_dots_eq same] at inside

/-- Which of the paths without dots are kept does not depend on their order. -/
theorem distinct_without_dots_perm {first second : List Path} (perm : first.Perm second) :
    (distinct (first.map withoutDots)).Perm (distinct (second.map withoutDots)) := by
  apply (List.perm_ext_iff_of_nodup (distinct_nodup _) (distinct_nodup _)).mpr
  intro path
  rw [mem_distinct_without_dots, mem_distinct_without_dots]
  exact (perm.map withoutDots).mem_iff

end Path

end FortranDeps

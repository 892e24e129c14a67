import FortranDeps.Proofs.Preprocess.Seeding
import FortranDeps.Proofs.Text.LetterCase

/-!
Directives as they are written and as they are read. Blanks around the parts of a directive and the
case of its keyword make no difference, and no character of an argument is lost: what was written
is read back. The other way around, what is read has names, values and file names that could be
written.
-/

namespace FortranDeps.Preprocess.Directive

open Text

/-- The marks around the name of an included file. -/
def marks : List (Char × Char) := [('\'', '\''), ('"', '"'), ('<', '>')]

/-- How a directive is written: a keyword, and what stands behind it. Behind an alternative and
behind the end of a block anything may stand. -/
inductive Written : String → List Char → Directive → Prop where
  | bareDefine {name : List Char} (isName : isIdentifier name = true) :
      Written "define" name (.define (String.ofList name) none)
  | define {name gap value : List Char} (isName : isIdentifier name = true) (blanks : Blanks gap)
      (apart : gap ≠ []) (compact : Compact value) (nonempty : value ≠ []) :
      Written "define" (name ++ gap ++ value)
        (.define (String.ofList name) (some (String.ofList value)))
  | undefine {name : List Char} (isName : isIdentifier name = true) :
      Written "undef" name (.undefine (String.ofList name))
  | ifDefined {name : List Char} (isName : isIdentifier name = true) :
      Written "ifdef" name (.ifDefined (String.ofList name))
  | ifUndefined {name : List Char} (isName : isIdentifier name = true) :
      Written "ifndef" name (.ifUndefined (String.ofList name))
  | includeFile {opening closing : Char} {target : List Char}
      (marked : (opening, closing) ∈ marks) (clean : closing ∉ target) (nonempty : target ≠ []) :
      Written "include" ([opening] ++ target ++ [closing]) (.includeFile (String.ofList target))
  | otherwise (arguments : List Char) : Written "else" arguments .otherwise
  | endIf (arguments : List Char) : Written "endif" arguments .endIf

/-- The line of a directive, with blanks before and behind the hash mark, behind the keyword and at
the end. -/
def writtenLine (lead indent word gap arguments trail : List Char) : String :=
  String.ofList (lead ++ '#' :: (indent ++ (word ++ (gap ++ arguments ++ trail))))

/-- Names are identifiers, values and file names are not empty, and values are trimmed. -/
def Sound : Directive → Prop
  | .includeFile target => target ≠ ""
  | .define name value =>
      isIdentifier name.toList = true ∧ ∀ text ∈ value, text ≠ "" ∧ Compact text.toList
  | .undefine name | .ifDefined name | .ifUndefined name => isIdentifier name.toList = true
  | .otherwise | .endIf | .unsupported _ | .unknown _ => True

/-! Reading what is written. -/

theorem is_name_char_to_lower (c : Char) : isNameChar c.toLower = isNameChar c :=
  to_lower_invariant isNameChar (by decide) c

theorem names_of_is_identifier {name : List Char} (isName : isIdentifier name = true) :
    (∀ c ∈ name, isNameChar c = true) ∧ name ≠ [] := by
  let definition : Definition := ⟨String.ofList name, none, by simpa using isName, by simp⟩
  simpa [definition] using definition.name_chars

theorem compact_of_is_identifier {name : List Char} (isName : isIdentifier name = true) :
    Compact name := compact_of_names (names_of_is_identifier isName).1

theorem first_word_name {name : List Char} (isName : isIdentifier name = true) :
    firstWord name = name := by
  have members : ∀ c ∈ name, (!isBlank c) = true := by
    intro c member
    rw [is_blank_of_is_name_char ((names_of_is_identifier isName).1 c member)]
    rfl
  have stops : Stops (!isBlank ·) [] := by simp [Stops]
  have run := take_while_run members stops
  rw [List.append_nil] at run
  rw [firstWord, trim_start_eq_self (compact_of_is_identifier isName).start, run]

theorem check_name_name (keyword : String) {name : List Char} (isName : isIdentifier name = true) :
    checkName keyword name = .ok (String.ofList name) := by
  have some : name.isEmpty = false :=
    List.isEmpty_eq_false_iff.mpr (names_of_is_identifier isName).2
  rw [checkName, some, if_neg Bool.false_ne_true, if_pos isName]

theorem definition_name {name rest : List Char} (isName : isIdentifier name = true)
    (stops : Stops (!isBlank ·) rest) :
    definition (name ++ rest) = .ok (.define (String.ofList name)
      (if (trim rest).isEmpty then none else some (String.ofList (trim rest)))) := by
  let given : Definition := ⟨String.ofList name, none, by simpa using isName, by simp⟩
  simpa [given] using given.definition_eq stops

theorem closing_mark_of_marked {opening closing : Char} (marked : (opening, closing) ∈ marks) :
    closingMark opening = some closing := by
  simp only [marks, List.mem_cons, List.not_mem_nil, or_false] at marked
  rcases marked with same | same | same <;> cases same <;> decide

theorem compact_of_marked {opening closing : Char} (marked : (opening, closing) ∈ marks) :
    Compact [opening] ∧ Compact [closing] := by
  have single {mark : Char} (visible : isBlank mark = false) : Compact [mark] :=
    ⟨stops_cons visible [], stops_cons visible []⟩
  simp only [marks, List.mem_cons, List.not_mem_nil, or_false] at marked
  rcases marked with same | same | same <;> cases same <;>
    exact ⟨single (by decide), single (by decide)⟩

theorem target_marked {opening closing : Char} {name : List Char}
    (marked : (opening, closing) ∈ marks) (clean : closing ∉ name) (nonempty : name ≠ []) :
    target ([opening] ++ name ++ [closing]) = .ok (String.ofList name) := by
  have members : ∀ c ∈ name, decide (c ≠ closing) = true := by
    intro c member
    rw [decide_eq_true_iff]
    rintro rfl
    exact clean member
  have stops : Stops (fun c => decide (c ≠ closing)) [closing] := stops_cons (by simp) []
  have some : name.isEmpty = false := List.isEmpty_eq_false_iff.mpr nonempty
  have closed : (name ++ [closing]).contains closing = true := by simp
  rw [List.append_assoc, List.singleton_append, target]
  simp only [closing_mark_of_marked marked, closed, take_while_run members stops, some, if_true,
    Bool.false_eq_true, if_false]

/-- A line is read as its keyword and its arguments. -/
theorem classify_written_line {lead indent word gap arguments trail : List Char}
    (before : Blanks lead) (inner : Blanks indent) (between : Blanks gap) (behind : Blanks trail)
    (apart : gap = [] → arguments = []) (names : ∀ c ∈ word, isNameChar c = true)
    (nonempty : word ≠ []) :
    classify (writtenLine lead indent word gap arguments trail) =
      some <$> ofKeyword word (trim (gap ++ arguments ++ trail)) := by
  have outside {c : Char} (blank : isBlank c = true) : isNameChar c = false := by
    by_contra name
    rw [is_blank_of_is_name_char (eq_true_of_ne_false name)] at blank
    cases blank
  have blankStops {text : List Char} (blanks : Blanks text) : Stops isNameChar text := by
    intro c first
    exact outside (blanks c (List.mem_of_head? first))
  have stops : Stops isNameChar (gap ++ arguments ++ trail) := by
    rw [List.append_assoc]
    apply (blankStops between).append
    intro none
    rw [apart none]
    exact blankStops behind
  have visible : Stops isBlank (word ++ (gap ++ arguments ++ trail)) :=
    (compact_of_names names).start.append fun none => absurd none nonempty
  have hash : trimStart (writtenLine lead indent word gap arguments trail).toList =
      '#' :: (indent ++ (word ++ (gap ++ arguments ++ trail))) := by
    rw [writtenLine, String.toList_ofList, trim_start_blanks before]
    exact trim_start_eq_self (stops_cons (by decide) _)
  have body : trimStart (indent ++ (word ++ (gap ++ arguments ++ trail))) =
      word ++ (gap ++ arguments ++ trail) := by
    rw [trim_start_blanks inner, trim_start_eq_self visible]
  simp only [classify, hash, body, take_while_run names stops, drop_while_run names stops]

theorem of_keyword_written {keyword : String} {word gap arguments trail : List Char}
    {directive : Directive} (written : Written keyword arguments directive)
    (between : Blanks gap) (behind : Blanks trail)
    (spelled : String.ofList (word.map Char.toLower) = keyword) :
    ofKeyword word (trim (gap ++ arguments ++ trail)) = .ok directive := by
  unfold ofKeyword
  rw [spelled]
  cases written with
  | bareDefine isName =>
      have nothing : Stops (!isBlank ·) [] := by simp [Stops]
      have read := definition_name isName nothing
      rw [List.append_nil] at read
      rw [trim_around between (compact_of_is_identifier isName) behind]
      exact read
  | @define name inner value isName blanks apart compact nonempty =>
      have whole : Compact (name ++ inner ++ value) :=
        (compact_of_is_identifier isName).around compact (names_of_is_identifier isName).2 nonempty
      have stops : Stops (!isBlank ·) (inner ++ value) := by
        refine Stops.append ?_ fun none => absurd none apart
        intro c first
        simp [blanks c (List.mem_of_head? first)]
      have trimmed : trim (inner ++ value) = value := by
        have nothing : Blanks [] := by simp [Blanks]
        have kept := trim_around blanks compact nothing
        rwa [List.append_nil] at kept
      rw [trim_around between whole behind, List.append_assoc]
      change definition (name ++ (inner ++ value)) = _
      rw [definition_name isName stops, trimmed, if_neg (by simpa using nonempty)]
  | undefine isName | ifDefined isName | ifUndefined isName =>
      simp only [trim_around between (compact_of_is_identifier isName) behind,
        first_word_name isName, check_name_name _ isName]
      rfl
  | includeFile marked clean nonempty =>
      obtain ⟨first, last⟩ := compact_of_marked marked
      simp only [trim_around between (first.around last (by simp) (by simp)) behind,
        target_marked marked clean nonempty]
      rfl
  | otherwise | endIf => rfl

theorem keyword_of_written {keyword : String} {arguments : List Char} {directive : Directive}
    (written : Written keyword arguments directive) :
    smallLetters keyword.toList = keyword.toList ∧ keyword.toList ≠ [] ∧
      ∀ c ∈ keyword.toList, isNameChar c = true := by
  cases written <;> refine ⟨by cbv, by simp, List.all_eq_true.mp (by cbv)⟩

/-- What was written is read back, in any case of the keyword. -/
theorem classify_written {keyword : String} {lead indent word gap arguments trail : List Char}
    {directive : Directive} (written : Written keyword arguments directive)
    (before : Blanks lead) (inner : Blanks indent) (between : Blanks gap) (behind : Blanks trail)
    (apart : gap = [] → arguments = []) (spelled : SameLetters word keyword.toList) :
    classify (writtenLine lead indent word gap arguments trail) = .ok (some directive) := by
  obtain ⟨small, nonempty, names⟩ := keyword_of_written written
  have letters : word.map Char.toLower = keyword.toList := spelled.trans small
  have wordNames : ∀ c ∈ word, isNameChar c = true := by
    intro c member
    rw [← is_name_char_to_lower]
    apply names
    rw [← letters]
    exact List.mem_map_of_mem member
  have wordNonempty : word ≠ [] := by
    rintro rfl
    exact nonempty letters.symm
  rw [classify_written_line before inner between behind apart wordNames wordNonempty,
    of_keyword_written written between behind (by rw [letters, String.ofList_toList])]
  rfl

/-! What is read. -/

theorem check_name_eq_ok {keyword name : String} {given : List Char}
    (checked : checkName keyword given = .ok name) : isIdentifier name.toList = true := by
  unfold checkName at checked
  split_ifs at checked with empty isName
  cases checked
  rwa [String.toList_ofList]

theorem target_eq_ok {arguments : List Char} {name : String}
    (found : target arguments = .ok name) : name ≠ "" := by
  have filled {given : List Char}
      (checked : (if given.isEmpty then .error .missingTarget else .ok (String.ofList given)) =
        (Except.ok name : Except Fault String)) : name ≠ "" := by
    split_ifs at checked with empty
    cases checked
    rintro none
    exact empty (List.isEmpty_iff.mpr (String.ofList_eq_empty_iff.mp none))
  unfold target at found
  dsimp only at found
  split at found
  · cases found
  · split at found
    · exact filled found
    · split at found
      · exact filled found
      · cases found

theorem sound_of_definition {arguments : List Char} {directive : Directive}
    (found : definition arguments = .ok directive) : directive.Sound := by
  simp only [definition, bind, Except.bind, pure, Except.pure] at found
  split at found
  · cases found
  · split at found
    · cases found
    · next name checked =>
        cases found
        refine ⟨check_name_eq_ok checked, ?_⟩
        intro text member
        split at member
        · cases member
        · next nonempty =>
            obtain rfl := Option.some.inj member
            rw [String.toList_ofList]
            refine ⟨?_, ?_⟩
            · intro none
              exact nonempty (List.isEmpty_iff.mpr (String.ofList_eq_empty_iff.mp none))
            · obtain ⟨_, _, -, -, compact, -⟩ :=
                exists_core (arguments.dropWhile (!isBlank ·))
              exact compact

theorem sound_of_of_keyword {keyword arguments : List Char} {directive : Directive}
    (found : ofKeyword keyword arguments = .ok directive) : directive.Sound := by
  unfold ofKeyword at found
  split at found
  case h_1 =>
    obtain ⟨name, checked, rfl⟩ := map_eq_ok.mp found
    exact target_eq_ok checked
  case h_2 => exact sound_of_definition found
  case h_3 | h_4 | h_5 =>
    obtain ⟨name, checked, rfl⟩ := map_eq_ok.mp found
    exact check_name_eq_ok checked
  all_goals
    cases found
    trivial

theorem sound_of_classify {text : String} {directive : Directive}
    (found : classify text = .ok (some directive)) : directive.Sound := by
  unfold classify at found
  split at found
  · obtain ⟨read, known, same⟩ := map_eq_ok.mp found
    cases same
    exact sound_of_of_keyword known
  · cases found

/-- A line is content unless a hash mark is its first visible character. -/
theorem classify_eq_none_iff {text : String} :
    classify text = .ok none ↔ text.toList.find? (!isBlank ·) ≠ some '#' := by
  have first : text.toList.find? (!isBlank ·) = (trimStart text.toList).head? := by
    rw [trimStart, ← List.find?_not_eq_head?_dropWhile]
  rw [first]
  unfold classify
  split
  · next body hash =>
      rw [hash]
      constructor
      · intro found
        obtain ⟨directive, -, same⟩ := map_eq_ok.mp found
        cases same
      · intro other
        exact absurd rfl other
  · next other =>
      refine ⟨fun _ hash => ?_, fun _ => rfl⟩
      obtain ⟨body, whole⟩ := List.head?_eq_some_iff.mp hash
      exact other body whole

/-- Reading a directive is the inverse of writing it. Whatever blanks stand around its parts and in
whatever case its keyword is written, exactly the directive that was written is read. What is read
at all has identifiers as names, trimmed values that are not empty, and file names that are not
empty. And exactly the lines that do not begin with a hash mark are content. -/
theorem directive_reading_inverts_writing :
    (∀ (keyword : String) (lead indent word gap arguments trail : List Char)
      (directive : Directive), Written keyword arguments directive → Blanks lead → Blanks indent →
      Blanks gap → Blanks trail → (gap = [] → arguments = []) →
      SameLetters word keyword.toList →
      classify (writtenLine lead indent word gap arguments trail) = .ok (some directive)) ∧
    (∀ text directive, classify text = .ok (some directive) → directive.Sound) ∧
    ∀ text, classify text = .ok none ↔ text.toList.find? (!isBlank ·) ≠ some '#' :=
  ⟨fun _ _ _ _ _ _ _ _ written before inner between behind apart spelled =>
      classify_written written before inner between behind apart spelled,
    fun _ _ => sound_of_classify, fun _ => classify_eq_none_iff⟩

/-- A definition and an inclusion, with blanks and capital letters, and a hash mark in content. -/
theorem spaced_directives_are_read :
    Written "define" "N  a b".toList (.define "N" (some "a b")) ∧
      classify "\t# DeFine N  a b " = .ok (some (.define "N" (some "a b"))) ∧
      classify "#INCLUDE <a 'b'.h>" = .ok (some (.includeFile "a 'b'.h")) ∧
      Sound (.define "N" (some "a b")) ∧ classify "x = a # b" = .ok none := by
  obtain ⟨reads, sound, content⟩ := directive_reading_inverts_writing
  have nothing : Blanks [] := List.forall_mem_nil _
  have space : Blanks [' '] := List.forall_mem_singleton.mpr (by decide)
  have tab : Blanks ['\t'] := List.forall_mem_singleton.mpr (by decide)
  have compact : Compact ['a', ' ', 'b'] :=
    ⟨stops_cons (by decide) _, stops_cons (by decide) _⟩
  have written : Written "define" "N  a b".toList (.define "N" (some "a b")) :=
    @Written.define ['N'] [' ', ' '] ['a', ' ', 'b'] (by decide)
      (List.forall_mem_cons.mpr ⟨by decide, space⟩) (by decide) compact (by decide)
  have included : Written "include" "<a 'b'.h>".toList (.includeFile "a 'b'.h") :=
    @Written.includeFile '<' '>' "a 'b'.h".toList (by decide) (by decide) (by decide)
  have defined := reads "define" ['\t'] [' '] "DeFine".toList [' '] _ [' '] _ written tab space
    space space (by decide) (by decide)
  have found := reads "include" [] [] "INCLUDE".toList [' '] _ [] _ included nothing nothing space
    nothing (by decide) (by decide)
  exact ⟨written, defined, found, sound _ _ defined, (content _).mpr (by decide)⟩

end FortranDeps.Preprocess.Directive

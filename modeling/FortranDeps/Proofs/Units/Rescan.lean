import FortranDeps.Proofs.Text.Lines
import FortranDeps.Proofs.Units.Grammar
import FortranDeps.Units.Scan
import Mathlib.Data.List.Basic

/-!
Scanning lines that have been written and read again. A carriage return at the end of a line is
lost on the way, and so are the lines that hold nothing, or nothing but a comment. Neither of the
two statements depends on either.
-/

namespace FortranDeps.Units

open Text

/-! A carriage return at the end of a line. -/

/-- What a statement says: the name of the unit and the property. -/
def Statement.content {Property : Type} (statement : Statement Property) : String × Property :=
  (statement.unitName, statement.property)

theorem is_word_char_return : isWordChar '\r' = false := by decide

theorem IsName.not_mem_return {name : List Char} (isName : IsName name) : '\r' ∉ name := by
  cases name with
  | nil => exact isName.elim
  | cons c rest =>
      intro member
      rcases List.mem_cons.mp member with rfl | later
      · exact absurd isName.1 (by decide)
      · have word := isName.2 _ later
        rw [is_word_char_return] at word
        cases word

/-- A reader of lines that depends on what follows the name only through a condition which a
carriage return does not change reads a line alike with a carriage return and without. -/
theorem content_return {Property : Type} {read : List Char → Option (Statement Property)}
    (Allowed : List Char → Prop)
    (cut : ∀ {line statement}, read line = some statement → IsName statement.name ∧
      Allowed statement.after ∧
      line = statement.before ++ (statement.name ++ statement.after))
    (follow : ∀ {line statement rest}, read line = some statement → Allowed rest →
      read (statement.before ++ (statement.name ++ rest)) = some { statement with after := rest })
    (allowed : ∀ rest, Allowed (rest ++ ['\r']) ↔ Allowed rest) (line : List Char) :
    (read (line ++ ['\r'])).map Statement.content = (read line).map Statement.content := by
  cases found : read line with
  | some statement =>
      obtain ⟨-, follows, whole⟩ := cut found
      have longer := follow found ((allowed _).mpr follows)
      have split : line ++ ['\r'] =
          statement.before ++ (statement.name ++ (statement.after ++ ['\r'])) := by
        rw [whole]
        simp
      rw [split, longer]
      rfl
  | none =>
      cases returned : read (line ++ ['\r']) with
      | none => rfl
      | some statement =>
          obtain ⟨isName, follows, whole⟩ := cut returned
          rcases List.eq_nil_or_concat statement.after with none | ⟨rest, c, last⟩
          -- The name would end with the carriage return.
          · rcases List.eq_nil_or_concat statement.name with unnamed | ⟨front, c, last⟩
            · rw [unnamed] at isName
              exact isName.elim
            · rw [none, last, List.concat_eq_append, List.append_nil, ← List.append_assoc] at whole
              obtain ⟨-, same⟩ := List.append_inj' whole rfl
              rw [last, List.concat_eq_append, ← same] at isName
              exact absurd (List.mem_append_right front (List.mem_singleton_self _))
                isName.not_mem_return
          · rw [last, List.concat_eq_append] at whole follows
            have parts :
                line ++ ['\r'] = (statement.before ++ (statement.name ++ rest)) ++ [c] := by
              rw [whole]
              simp
            obtain ⟨shorter, same⟩ := List.append_inj' parts rfl
            cases same
            have again := follow returned ((allowed rest).mp follows)
            rw [← shorter, found] at again
            cases again

theorem stops_return (rest : List Char) :
    Stops isWordChar (rest ++ ['\r']) ↔ Stops isWordChar rest := by
  cases rest with
  | nil =>
      have stops := stops_cons is_word_char_return []
      simpa [Stops] using stops
  | cons c later => exact Iff.rfl

theorem ends_statement_return (rest : List Char) :
    endsStatement (rest ++ ['\r']) = endsStatement rest := by
  obtain ⟨lead, blanks, whole⟩ := exists_blanks rest
  have start : trimStart (rest ++ ['\r']) = trimStart (trimStart rest ++ ['\r']) := by
    rw [whole, List.append_assoc, trim_start_blanks blanks, ← whole]
  unfold endsStatement
  rw [start]
  cases left : trimStart rest with
  | nil => rfl
  | cons c comment =>
      have kept : trimStart (c :: comment ++ ['\r']) = c :: (comment ++ ['\r']) :=
        trim_start_eq_self (stops_cons (head_trim_start_not_blank left) _)
      rw [kept]
      simp

theorem use_statement?_return (line : List Char) :
    (useStatement? (line ++ ['\r'])).map Statement.content =
      (useStatement? line).map Statement.content := by
  apply content_return (Stops isWordChar) _ _ stops_return
  · intro line statement read
    have isUse := use_statement?_eq_some.mp read
    cases isUse with
    | cut _ _ _ _ isName stops => exact ⟨isName, stops, rfl⟩
  · intro line statement rest read stops
    exact use_statement?_eq_some.mpr ((use_statement?_eq_some.mp read).followed_by stops)

theorem unit_statement?_return (line : List Char) :
    (unitStatement? (line ++ ['\r'])).map Statement.content =
      (unitStatement? line).map Statement.content := by
  apply content_return fun rest => Stops isWordChar rest ∧ endsStatement rest = true
  · intro line statement read
    have isUnit := unit_statement?_eq_some.mp read
    cases isUnit with
    | cut _ _ _ _ isName stops ends => exact ⟨isName, ⟨stops, ends⟩, rfl⟩
  · intro line statement rest read follows
    have isUnit := unit_statement?_eq_some.mp read
    apply unit_statement?_eq_some.mpr
    cases isUnit with
    | cut leading spelled between nonempty isName =>
        exact .cut leading spelled between nonempty isName follows.1 follows.2
  · intro rest
    rw [stops_return, ends_statement_return]

/-! Lines that are read again. -/

/-- A reader that takes nothing from silent lines, and the same from a line with a carriage return
and without. -/
structure Lasting {Value : Type} (read : List Char → Option Value) : Prop where
  silent : ∀ line, Line.isSilent line = true → read line = none
  returned : ∀ line, read (line ++ ['\r']) = read line

theorem Lasting.drop_return {Value : Type} {read : List Char → Option Value}
    (lasting : Lasting read) (line : List Char) : read (Text.dropReturn line) = read line := by
  unfold Text.dropReturn
  split
  · next ending =>
      obtain ⟨front, rfl⟩ := List.getLast?_eq_some_iff.mp ending
      rw [List.dropLast_concat]
      exact (lasting.returned front).symm
  · rfl

theorem Lasting.filter_map_of_text {Value : Type} {read : List Char → Option Value}
    (lasting : Lasting read) (file text : String) :
    (Line.ofText file text).filterMap (fun line => read line.text.toList) =
      (lines text.toList).filterMap read := by
  have kept (piece : List Char × Nat) :
      (if Line.isSilent piece.1 then none
        else some (Line.mk (String.ofList piece.1) ⟨file, piece.2⟩)).bind
          (fun line => read line.text.toList) = read piece.1 := by
    split
    · next silent => exact (lasting.silent _ silent).symm
    · simp
  unfold Line.ofText
  rw [List.filterMap_filterMap]
  calc ((lines text.toList).zipIdx 1).filterMap _
      = ((lines text.toList).zipIdx 1).filterMap (fun piece => read piece.1) :=
        List.filterMap_congr fun piece _ => kept piece
    _ = (((lines text.toList).zipIdx 1).map Prod.fst).filterMap read := by
        rw [List.filterMap_map]
        rfl
    _ = (lines text.toList).filterMap read := by rw [List.zipIdx_map_fst]

/-- Lines that are written with a line feed behind each of them give the same when they are read
again. -/
theorem Lasting.filter_map_written {Value : Type} {read : List Char → Option Value}
    (lasting : Lasting read) {written : List Line}
    (single : ∀ line ∈ written, '\n' ∉ line.text.toList) (file : String) :
    (Line.ofText file (String.join ((written.map (·.text)).map (· ++ "\n")))).filterMap
        (fun line => read line.text.toList) =
      written.filterMap (fun line => read line.text.toList) := by
  have chars : (String.join ((written.map (·.text)).map (· ++ "\n"))).toList =
      (written.map (·.text.toList)).flatMap (· ++ ['\n']) := by
    simp [List.flatMap_map]
  have clean : ∀ text ∈ written.map (·.text.toList), '\n' ∉ text :=
    List.forall_mem_map.mpr single
  rw [lasting.filter_map_of_text, chars, lines_written clean, List.map_map, List.filterMap_map]
  exact List.filterMap_congr fun line _ => lasting.drop_return line.text.toList

/-! The two searches. -/

theorem not_silent_of_spelled {lead keyword word rest : List Char} {c : Char}
    (leading : Blanks lead) (spelled : word.map folded = c :: keyword)
    (letter : isNameChar c = true) : Line.isSilent (lead ++ (word ++ rest)) = false := by
  unfold Line.isSilent
  rw [trim_start_blanks leading, trim_start_eq_self (stops_blank_of_spelled spelled letter rest)]
  have begins := head?_spelled spelled rest
  cases whole : word ++ rest with
  | nil =>
      rw [whole] at begins
      cases begins
  | cons first later =>
      rw [whole] at begins
      apply beq_false_of_ne
      rintro rfl
      rw [← Option.some.inj begins] at letter
      exact absurd letter (by decide)

/-- What a line says about a use. -/
def useContent? (line : List Char) : Option (String × Bool) :=
  (useStatement? line).map Statement.content

/-- What a line says about a unit. -/
def unitContent? (line : List Char) : Option (String × UnitKind) :=
  (unitStatement? line).map Statement.content

theorem lasting_use : Lasting useContent? where
  returned := use_statement?_return
  silent := by
    intro line silent
    cases read : useStatement? line with
    | none => rw [useContent?, read, Option.map_none]
    | some statement =>
        cases use_statement?_eq_some.mp read with
        | cut leading spelled isMark isSeparator isName stops =>
            rw [List.append_assoc, List.append_assoc,
              not_silent_of_spelled leading spelled (by decide)] at silent
            cases silent

theorem lasting_unit : Lasting unitContent? where
  returned := unit_statement?_return
  silent := by
    intro line silent
    cases read : unitStatement? line with
    | none => rw [unitContent?, read, Option.map_none]
    | some statement =>
        cases unit_statement?_eq_some.mp read with
        | @cut lead keyword gap name after kind leading spelled =>
            have loud : Line.isSilent (lead ++ (keyword ++ (gap ++ (name ++ after)))) = false := by
              cases kind with
              | moduleUnit => exact not_silent_of_spelled leading spelled (by decide)
              | mainProgram => exact not_silent_of_spelled leading spelled (by decide)
            rw [List.append_assoc, List.append_assoc, loud] at silent
            cases silent

theorem declared_unit?_eq (line : Line) :
    declaredUnit? line = (unitContent? line.text.toList).bind fun (name, kind) =>
      if name = "procedure" then none else some (kind, name) := by
  unfold declaredUnit? unitContent?
  cases unitStatement? line.text.toList with
  | none => rfl
  | some statement =>
      simp only [Option.map_some, Option.bind_some, Option.bind_eq_bind, Statement.content]
      split <;> rfl

theorem used_module?_eq (file : Path) (line : Line) :
    usedModule? file line = (useContent? line.text.toList).map fun (name, intrinsic) =>
      ⟨file, name, intrinsic, line.location.line⟩ := by
  unfold usedModule? useContent?
  cases useStatement? line.text.toList <;> rfl

/-- The units that lines declare depend on what their statements say. -/
theorem filter_map_declared_unit? (lines : List Line) :
    lines.filterMap declaredUnit? =
      (lines.filterMap fun line => unitContent? line.text.toList).filterMap fun (name, kind) =>
        if name = "procedure" then none else some (kind, name) := by
  rw [List.filterMap_filterMap]
  exact List.filterMap_congr fun line _ => declared_unit?_eq line

theorem find_declaration_eq_one {lines : List Line} {kind : UnitKind} {name : String} :
    findDeclaration lines = .one kind name ↔ lines.filterMap declaredUnit? = [(kind, name)] := by
  unfold findDeclaration
  constructor
  · intro found
    split at found
    · cases found
    · next only =>
        cases found
        exact only
    · cases found
  · intro only
    rw [only]

theorem find_declaration_eq_none {lines : List Line} :
    findDeclaration lines = .none ↔ lines.filterMap declaredUnit? = [] := by
  unfold findDeclaration
  constructor
  · intro found
    split at found
    · next nothing => exact nothing
    · cases found
    · cases found
  · intro nothing
    rw [nothing]

theorem find_declaration_eq_several {lines : List Line} {names : List String} :
    findDeclaration lines = .several names ↔
      2 ≤ (lines.filterMap declaredUnit?).length ∧
        (lines.filterMap declaredUnit?).map Prod.snd = names := by
  unfold findDeclaration
  generalize lines.filterMap declaredUnit? = units
  cases units with
  | nil => simp
  | cons first rest =>
      cases rest with
      | nil => simp
      | cons second others => simp

/-- What an edge says about the module, apart from where it is used. -/
def UseEdge.content (edge : UseEdge) : String × Bool := (edge.name, edge.intrinsic)

theorem map_used_module? (file : Path) (lines : List Line) :
    (lines.filterMap (usedModule? file)).map UseEdge.content =
      lines.filterMap fun line => useContent? line.text.toList := by
  rw [List.map_filterMap]
  apply List.filterMap_congr
  intro line _
  unfold usedModule? useContent?
  cases useStatement? line.text.toList <;> rfl

theorem map_first_uses {first second : List UseEdge}
    (same : first.map UseEdge.content = second.map UseEdge.content) :
    (firstUses first).map UseEdge.content = (firstUses second).map UseEdge.content := by
  have filtered (name : String) (edges : List UseEdge) :
      (edges.filter (·.name != name)).map UseEdge.content =
        (edges.map UseEdge.content).filter (·.1 != name) := by
    rw [List.filter_map]
    rfl
  induction first generalizing second with
  | nil =>
      obtain rfl := List.map_eq_nil_iff.mp same.symm
      rfl
  | cons edge rest induction =>
      cases second with
      | nil => cases same
      | cons other others =>
          rw [List.map_cons, List.map_cons] at same
          obtain ⟨own, later⟩ := List.cons.inj same
          have name : edge.name = other.name := congrArg Prod.fst own
          rw [firstUses, firstUses, List.map_cons, List.map_cons, own, filtered, filtered,
            induction later, name]

/-- Two scans that find the same unit and the same uses, in the same order, or find no unit, or the
same units. -/
inductive SameScan : Except Diagnostic ScannedFile → Except Diagnostic ScannedFile → Prop where
  | found {first second : ScannedFile} (kind : first.declaration.kind = second.declaration.kind)
      (name : first.declaration.name = second.declaration.name)
      (uses : first.uses.map UseEdge.content = second.uses.map UseEdge.content) :
      SameScan (.ok first) (.ok second)
  | none (first second : Path) :
      SameScan (.error (.noDeclaration first)) (.error (.noDeclaration second))
  | several (first second : Path) (names : List String) :
      SameScan (.error (.multipleDeclarations first names))
        (.error (.multipleDeclarations second names))

/-- Scans of lines that say the same about units and uses. -/
theorem same_scan_of_content {tree other : FileTree} {reading otherReading : Reading}
    {path otherPath : Path} {lines others : List Line}
    (first : reading.lines tree path = .ok lines)
    (second : otherReading.lines other otherPath = .ok others)
    (units : (lines.filterMap fun line => unitContent? line.text.toList) =
      others.filterMap fun line => unitContent? line.text.toList)
    (uses : (lines.filterMap fun line => useContent? line.text.toList) =
      others.filterMap fun line => useContent? line.text.toList) (always otherAlways : Bool) :
    SameScan (scanFile tree reading ⟨path, false, always⟩)
      (scanFile other otherReading ⟨otherPath, false, otherAlways⟩) := by
  have declarations : findDeclaration lines = findDeclaration others := by
    unfold findDeclaration
    rw [filter_map_declared_unit?, filter_map_declared_unit?, units]
  have edges : (findUses path lines).map UseEdge.content =
      (findUses otherPath others).map UseEdge.content := by
    apply map_first_uses
    rw [map_used_module?, map_used_module?, uses]
  unfold scanFile
  simp only [first, second, declarations, bind, Except.bind]
  cases findDeclaration others with
  | one kind name => exact .found rfl rfl edges
  | none => exact .none path otherPath
  | several names => exact .several path otherPath names

end FortranDeps.Units

import FortranDeps.Preprocess.Expansion
import FortranDeps.Proofs.Text.Runs

/-!
Lines as sequences of lexemes. The texts of its lexemes make up a line, and a text in which no
literal and no comment begins can be cut from the rest of the line wherever no name runs across the
cut. So replaced text keeps the lexemes that it has alone, and leaves those around it as they are.
-/

namespace FortranDeps.Preprocess

open Text

def IsQuote (c : Char) : Prop := c = '\'' ∨ c = '"'

/-- No literal and no comment begins in a text. -/
def Open (text : List Char) : Prop := ∀ c ∈ text, ¬ IsQuote c ∧ c ≠ '!'

/-- No name runs from the end of one text into the next. -/
def Apart (first second : List Char) : Prop :=
  ∀ last ∈ first.getLast?, isNameChar last = true → Stops isNameChar second

/-- Name characters alone, and at least one. -/
def IsRun (text : List Char) : Prop := text ≠ [] ∧ ∀ c ∈ text, isNameChar c = true

/-- Neither names nor marks of literals and comments. -/
def Gap (text : List Char) : Prop :=
  ∀ c ∈ text, (¬ IsQuote c ∧ c ≠ '!') ∧ isNameChar c = false

theorem open_of_names {text : List Char} (names : ∀ c ∈ text, isNameChar c = true) :
    Open text := by
  intro c member
  have name := names c member
  constructor
  · rintro (rfl | rfl) <;> cases name
  · rintro rfl
    cases name

theorem Apart.tail {first middle second : List Char} (apart : Apart (first ++ middle) second) :
    Apart middle second := by
  intro last isLast
  apply apart last
  rw [List.getLast?_append, Option.mem_def.mp isLast]
  rfl

theorem Apart.stops {run second : List Char} (apart : Apart run second) (isRun : IsRun run) :
    Stops isNameChar second := by
  apply apart (run.getLast isRun.1)
  · exact List.getLast?_eq_some_getLast isRun.1
  · exact isRun.2 _ (List.getLast_mem isRun.1)

theorem apart_of_stops {second : List Char} (stops : Stops isNameChar second)
    (first : List Char) : Apart first second :=
  fun _ _ _ => stops

theorem apart_gap {gap : List Char} (isGap : Gap gap) (rest : List Char) : Apart gap rest := by
  intro last isLast name
  have noName := (isGap last (List.mem_of_getLast? isLast)).2
  rw [name] at noName
  cases noName

theorem stops_gap {gap : List Char} (isGap : Gap gap) : Stops isNameChar gap := by
  intro next first
  exact (isGap next (List.mem_of_head? first)).2

namespace Lexeme

/-- The lexeme of a run of name characters. -/
def ofRun (run : List Char) : Lexeme :=
  if run.head?.any Char.isDigit then number run else word run

@[simp] theorem text_of_run (run : List Char) : (ofRun run).text = run := by
  unfold ofRun
  split <;> rfl

/-! How a line is cut, by what it begins with. -/

section Cuts

variable {quote c : Char} {inner run rest : List Char}

theorem split_unclosed (isQuote : IsQuote quote) (absent : quote ∉ rest) :
    split (quote :: rest) = [literal (quote :: rest)] := by
  have others : ∀ c ∈ rest, decide (c ≠ quote) = true := by
    intro c member
    apply decide_eq_true
    rintro rfl
    exact absent member
  have unclosed : rest.dropWhile (· ≠ quote) = [] := List.dropWhile_eq_nil_iff.mpr others
  unfold IsQuote at isQuote
  rw [split, if_pos isQuote]
  split
  · rfl
  · next closed =>
      rw [unclosed] at closed
      cases closed

theorem split_literal (isQuote : IsQuote quote) (absent : quote ∉ inner) :
    split (quote :: (inner ++ quote :: rest)) =
      literal (quote :: inner ++ [quote]) :: split rest := by
  have others : ∀ c ∈ inner, decide (c ≠ quote) = true := by
    intro c member
    apply decide_eq_true
    rintro rfl
    exact absent member
  have stops : Stops (fun c => decide (c ≠ quote)) (quote :: rest) := stops_cons (by simp) rest
  unfold IsQuote at isQuote
  rw [split, if_pos isQuote]
  split
  · next unclosed =>
      rw [drop_while_run others stops] at unclosed
      cases unclosed
  · next close following closed =>
      rw [drop_while_run others stops] at closed
      cases closed
      rw [take_while_run others stops]

theorem split_comment : split ('!' :: rest) = [comment ('!' :: rest)] := by
  have noQuote : ¬ ('!' = '\'' ∨ '!' = '"') := by decide
  rw [split, if_neg noQuote, if_pos rfl]

theorem split_run (isRun : IsRun run) (stops : Stops isNameChar rest) :
    split (run ++ rest) = ofRun run :: split rest := by
  obtain ⟨nonempty, names⟩ := isRun
  cases run with
  | nil => exact absurd rfl nonempty
  | cons c run =>
      obtain ⟨first, others⟩ := List.forall_mem_cons.mp names
      obtain ⟨noQuote, noComment⟩ := open_of_names names c List.mem_cons_self
      unfold IsQuote at noQuote
      rw [List.cons_append, split, if_neg noQuote, if_neg noComment, if_pos first,
        take_while_run others stops, drop_while_run others stops]
      rfl

theorem split_other (opened : ¬ IsQuote c ∧ c ≠ '!') (noName : isNameChar c = false) :
    split (c :: rest) = other c :: split rest := by
  obtain ⟨noQuote, noComment⟩ := opened
  have notName : ¬ isNameChar c = true := by simp [noName]
  unfold IsQuote at noQuote
  rw [split, if_neg noQuote, if_neg noComment, if_neg notName]

end Cuts

/-- Induction over a line, lexeme by lexeme. -/
theorem line_induction {motive : List Char → Prop} (nil : motive [])
    (unclosed : ∀ quote rest, IsQuote quote → quote ∉ rest → motive (quote :: rest))
    (literal : ∀ quote inner rest, IsQuote quote → quote ∉ inner → motive rest →
      motive (quote :: (inner ++ quote :: rest)))
    (comment : ∀ rest, motive ('!' :: rest))
    (run : ∀ run rest, IsRun run → Stops isNameChar rest → motive rest → motive (run ++ rest))
    (other : ∀ c rest, ¬ IsQuote c ∧ c ≠ '!' → isNameChar c = false → motive rest →
      motive (c :: rest))
    (line : List Char) : motive line := by
  fun_induction split line with
  | case1 => exact nil
  | case2 quote rest isQuote closed =>
      apply unclosed quote rest isQuote
      intro member
      have others := List.dropWhile_eq_nil_iff.mp closed quote member
      simp at others
  | case3 quote rest isQuote close after closed induction =>
      have ending := stops_drop_while (· ≠ quote) rest close
      rw [closed] at ending
      have same : close = quote := by simpa using ending rfl
      have whole := List.takeWhile_append_dropWhile (p := (· ≠ quote)) (l := rest)
      rw [closed, same] at whole
      rw [← whole]
      apply literal quote _ after isQuote _ induction
      intro member
      have others := List.mem_takeWhile_imp member
      simp at others
  | case4 rest => exact comment rest
  | case5 c rest noQuote noComment name run' induction =>
      have whole := List.takeWhile_append_dropWhile (p := isNameChar) (l := rest)
      rw [← whole, ← List.cons_append]
      apply run _ _ ⟨List.cons_ne_nil _ _, _⟩ (stops_drop_while isNameChar rest) induction
      intro next member
      rcases List.mem_cons.mp member with rfl | later
      · exact name
      · exact List.mem_takeWhile_imp later
  | case6 c rest noQuote noComment noName induction =>
      exact other c rest ⟨noQuote, noComment⟩ (by simpa using noName) induction

theorem flat_map_text_split (line : List Char) : (split line).flatMap text = line := by
  induction line using line_induction with
  | nil => simp [split]
  | unclosed quote rest isQuote absent =>
      rw [split_unclosed isQuote absent]
      simp [text]
  | literal quote inner rest isQuote absent induction =>
      rw [split_literal isQuote absent, List.flatMap_cons, induction]
      simp [text]
  | comment rest =>
      rw [split_comment]
      simp [text]
  | run run rest isRun stops induction =>
      rw [split_run isRun stops, List.flatMap_cons, induction, text_of_run]
  | other c rest opened noName induction =>
      rw [split_other opened noName, List.flatMap_cons, induction]
      simp [text]

theorem text_ne_nil {line : List Char} {lexeme : Lexeme} (member : lexeme ∈ split line) :
    lexeme.text ≠ [] := by
  induction line using line_induction with
  | nil => simp [split] at member
  | unclosed quote rest isQuote absent =>
      rw [split_unclosed isQuote absent, List.mem_singleton] at member
      simp [member, text]
  | literal quote inner rest isQuote absent induction =>
      rw [split_literal isQuote absent] at member
      rcases List.mem_cons.mp member with rfl | later
      · simp [text]
      · exact induction later
  | comment rest =>
      rw [split_comment, List.mem_singleton] at member
      simp [member, text]
  | run run rest isRun stops induction =>
      rw [split_run isRun stops] at member
      rcases List.mem_cons.mp member with rfl | later
      · rw [text_of_run]
        exact isRun.1
      · exact induction later
  | other c rest opened noName induction =>
      rw [split_other opened noName] at member
      rcases List.mem_cons.mp member with rfl | later
      · simp [text]
      · exact induction later

theorem split_append {first second : List Char} (opened : Open first)
    (apart : Apart first second) : split (first ++ second) = split first ++ split second := by
  induction first using line_induction with
  | nil => simp [split]
  | unclosed quote rest isQuote | literal quote inner rest isQuote =>
      exact absurd isQuote (opened quote List.mem_cons_self).1
  | comment rest => exact absurd rfl (opened '!' List.mem_cons_self).2
  | run run rest isRun stops induction =>
      -- If the run ends the first text, it is the last character that keeps the texts apart.
      have boundary : Stops isNameChar (rest ++ second) := by
        apply stops.append
        rintro rfl
        rw [List.append_nil] at apart
        exact apart.stops isRun
      have later := induction (List.forall_mem_append.mp opened).2 apart.tail
      rw [List.append_assoc, split_run isRun boundary, later, split_run isRun stops]
      rfl
  | other c rest unmarked noName induction =>
      have whole : Apart ([c] ++ rest) second := apart
      have later := induction (List.forall_mem_cons.mp opened).2 whole.tail
      rw [List.cons_append, split_other unmarked noName, later, split_other unmarked noName]
      rfl

theorem split_alone {run : List Char} (isRun : IsRun run) : split run = [ofRun run] := by
  have nothing : Stops isNameChar [] := by simp [Stops]
  have whole := split_run isRun nothing
  rw [List.append_nil] at whole
  rw [whole]
  simp [split]

end Lexeme

/-! Lines in which no word is defined. -/

namespace MacroTable

variable (table : MacroTable)

def Settled (line : List Char) : Prop :=
  ∀ word, .word word ∈ Lexeme.split line → table.isDefined (String.ofList word) = false

/-- The line with all defined names replaced. -/
def replaced (line : List Char) : List Char :=
  (Lexeme.split line).flatMap (Lexeme.image table false)

/-- No literal and no comment begins in a text, and no word of it is defined. -/
structure Quiet (text : List Char) : Prop where
  opened : Open text
  settled : table.Settled text

/-- Substitutions bring in no literal, no comment and no defined name. -/
def Terminal : Prop :=
  ∀ name value, table.get? name = some value → table.Quiet (substitution value).toList

variable {table}

theorem Settled.append {first second : List Char} (settled : table.Settled first)
    (later : table.Settled second) (opened : Open first) (apart : Apart first second) :
    table.Settled (first ++ second) := by
  intro word member
  rw [Lexeme.split_append opened apart] at member
  rcases List.mem_append.mp member with inFirst | inSecond
  · exact settled word inFirst
  · exact later word inSecond

theorem Quiet.append {first second : List Char} (quiet : table.Quiet first)
    (later : table.Quiet second) (apart : Apart first second) : table.Quiet (first ++ second) where
  opened := List.forall_mem_append.mpr ⟨quiet.opened, later.opened⟩
  settled := quiet.settled.append later.settled quiet.opened apart

theorem quiet_run {run : List Char} (isRun : IsRun run)
    (undefined : table.isDefined (String.ofList run) = false) : table.Quiet run := by
  refine ⟨open_of_names isRun.2, ?_⟩
  intro word member
  rw [Lexeme.split_alone isRun, List.mem_singleton] at member
  unfold Lexeme.ofRun at member
  split at member
  · cases member
  · cases member
    exact undefined

theorem quiet_gap {gap : List Char} (isGap : Gap gap) : table.Quiet gap := by
  refine ⟨fun c member => (isGap c member).1, ?_⟩
  intro word member
  induction gap with
  | nil => simp [Lexeme.split] at member
  | cons c rest induction =>
      obtain ⟨⟨own, noName⟩, others⟩ := List.forall_mem_cons.mp isGap
      rw [Lexeme.split_other own noName] at member
      rcases List.mem_cons.mp member with same | later
      · cases same
      · exact induction others later

theorem image_eq_text {lexeme : Lexeme} (isProtected : Bool)
    (undefined : ∀ word, lexeme = .word word → table.isDefined (String.ofList word) = false) :
    lexeme.image table isProtected = lexeme.text := by
  cases lexeme with
  | word word =>
      have none : table.get? (String.ofList word) = none := by
        simpa [isDefined] using undefined word rfl
      simp [Lexeme.image, none, Lexeme.text]
  | literal | comment | number | other => rfl

/-! All defined names of a line are replaced at once, and none is left. -/

section Replaced

variable {quote c : Char} {inner run rest : List Char}

theorem replaced_unclosed (isQuote : IsQuote quote) (absent : quote ∉ rest) :
    table.replaced (quote :: rest) = quote :: rest := by
  unfold replaced
  rw [Lexeme.split_unclosed isQuote absent]
  simp [Lexeme.image, Lexeme.text]

theorem replaced_literal (isQuote : IsQuote quote) (absent : quote ∉ inner) :
    table.replaced (quote :: (inner ++ quote :: rest)) =
      quote :: (inner ++ quote :: table.replaced rest) := by
  unfold replaced
  rw [Lexeme.split_literal isQuote absent]
  simp [Lexeme.image, Lexeme.text]

theorem replaced_comment : table.replaced ('!' :: rest) = '!' :: rest := by
  unfold replaced
  rw [Lexeme.split_comment]
  simp [Lexeme.image, Lexeme.text]

theorem replaced_run (isRun : IsRun run) (stops : Stops isNameChar rest) :
    table.replaced (run ++ rest) =
      (Lexeme.ofRun run).image table false ++ table.replaced rest := by
  unfold replaced
  rw [Lexeme.split_run isRun stops, List.flatMap_cons]

theorem replaced_other (opened : ¬ IsQuote c ∧ c ≠ '!') (noName : isNameChar c = false) :
    table.replaced (c :: rest) = c :: table.replaced rest := by
  unfold replaced
  rw [Lexeme.split_other opened noName]
  simp [Lexeme.image, Lexeme.text]

theorem replaced_gap {gap : List Char} (isGap : Gap gap) :
    table.replaced (gap ++ rest) = gap ++ table.replaced rest := by
  induction gap with
  | nil => rfl
  | cons c others induction =>
      obtain ⟨⟨opened, noName⟩, later⟩ := List.forall_mem_cons.mp isGap
      rw [List.cons_append, replaced_other opened noName, induction later]
      rfl

end Replaced

/-- A line that begins with no name begins as before. -/
theorem head?_replaced {line : List Char} (stops : Stops isNameChar line) :
    (table.replaced line).head? = line.head? := by
  induction line using Lexeme.line_induction with
  | nil => simp [replaced, Lexeme.split]
  | unclosed quote rest isQuote absent => rw [replaced_unclosed isQuote absent]
  | literal quote inner rest isQuote absent => rw [replaced_literal isQuote absent]; rfl
  | comment rest => rw [replaced_comment]
  | run run rest isRun =>
      obtain ⟨nonempty, names⟩ := isRun
      cases run with
      | nil => exact absurd rfl nonempty
      | cons c run =>
          have noName := stops c rfl
          rw [names c List.mem_cons_self] at noName
          cases noName
  | other c rest opened noName => rw [replaced_other opened noName]; rfl

theorem stops_replaced {isMember : Char → Bool} {line : List Char}
    (stops : Stops isMember line) (noName : Stops isNameChar line) :
    Stops isMember (table.replaced line) := by
  unfold Stops
  rw [head?_replaced noName]
  exact stops

theorem quiet_image (terminal : table.Terminal) {run : List Char} (isRun : IsRun run) :
    table.Quiet ((Lexeme.ofRun run).image table false) := by
  have alone := Lexeme.split_alone isRun
  unfold Lexeme.ofRun at alone ⊢
  split
  · next isDigit =>
      rw [if_pos isDigit] at alone
      refine ⟨open_of_names isRun.2, ?_⟩
      show table.Settled run
      simp [Settled, alone]
  · cases definition : table.get? (String.ofList run) with
    | none =>
        have undefined : table.isDefined (String.ofList run) = false := by
          simp [isDefined, definition]
        simp only [Lexeme.image, definition]
        exact quiet_run isRun undefined
    | some value =>
        simp only [Lexeme.image, definition, Bool.false_and, Bool.false_eq_true, if_false]
        exact terminal _ value definition

theorem settled_replaced (terminal : table.Terminal) (line : List Char) :
    table.Settled (table.replaced line) := by
  induction line using Lexeme.line_induction with
  | nil => simp [replaced, Settled, Lexeme.split]
  | unclosed quote rest isQuote absent =>
      rw [replaced_unclosed isQuote absent]
      simp [Settled, Lexeme.split_unclosed isQuote absent]
  | literal quote inner rest isQuote absent induction =>
      rw [replaced_literal isQuote absent]
      simpa [Settled, Lexeme.split_literal isQuote absent] using induction
  | comment rest =>
      rw [replaced_comment]
      simp [Settled, Lexeme.split_comment]
  | run run rest isRun stops induction =>
      have quiet := quiet_image terminal isRun
      -- What follows a run begins with no name, before and after the replacement.
      have boundary : Stops isNameChar (table.replaced rest) := stops_replaced stops stops
      rw [replaced_run isRun stops]
      exact quiet.settled.append induction quiet.opened (apart_of_stops boundary _)
  | other c rest opened noName induction =>
      rw [replaced_other opened noName]
      simpa [Settled, Lexeme.split_other opened noName] using induction

/-! The expansion of lexemes from an offset on. -/

theorem expand_from_append (keep : Option Span) (offset : Nat) (first second : List Lexeme) :
    table.expandFrom keep offset (first ++ second) =
      table.expandFrom keep offset first ++
        table.expandFrom keep (offset + byteLength (first.flatMap Lexeme.text)) second := by
  induction first generalizing offset with
  | nil => simp [expandFrom, byteLength]
  | cons lexeme rest induction =>
      simp only [List.cons_append, expandFrom, induction, List.append_assoc, List.flatMap_cons,
        byte_length_append, Nat.add_assoc]

theorem expand_from_settled {lexemes : List Lexeme}
    (settled : ∀ word, .word word ∈ lexemes → table.isDefined (String.ofList word) = false)
    (keep : Option Span) (offset : Nat) :
    table.expandFrom keep offset lexemes = lexemes.flatMap Lexeme.text := by
  induction lexemes generalizing offset with
  | nil => rfl
  | cons lexeme rest induction =>
      have undefined : ∀ word, lexeme = .word word →
          table.isDefined (String.ofList word) = false := by
        rintro word rfl
        exact settled word List.mem_cons_self
      have later := induction fun word member => settled word (List.mem_cons_of_mem _ member)
      simp only [expandFrom, image_eq_text _ undefined, later, List.flatMap_cons]

theorem expand_from_none (offset : Nat) (lexemes : List Lexeme) :
    table.expandFrom none offset lexemes = lexemes.flatMap (Lexeme.image table false) := by
  induction lexemes generalizing offset with
  | nil => rfl
  | cons lexeme rest induction => simp [expandFrom, induction]

theorem byte_length_pos {text : List Char} (nonempty : text ≠ []) : 0 < byteLength text := by
  cases text with
  | nil => exact absurd rfl nonempty
  | cons c rest =>
      have size := c.utf8Size_pos
      unfold byteLength
      omega

/-- Behind the kept span nothing is protected. -/
theorem expand_from_beyond {span : Span} {offset : Nat} (beyond : span.stop ≤ offset)
    {lexemes : List Lexeme} (nonempty : ∀ lexeme ∈ lexemes, lexeme.text ≠ []) :
    table.expandFrom (some span) offset lexemes = lexemes.flatMap (Lexeme.image table false) := by
  induction lexemes generalizing offset with
  | nil => rfl
  | cons lexeme rest induction =>
      obtain ⟨own, others⟩ := List.forall_mem_cons.mp nonempty
      have wide := byte_length_pos own
      have uncovered : span.covers offset (offset + byteLength lexeme.text) = false := by
        have outside : ¬ offset + byteLength lexeme.text ≤ span.stop := by omega
        simp [Span.covers, outside]
      have further : span.stop ≤ offset + byteLength lexeme.text := by omega
      simp [expandFrom, uncovered, induction further others]

/-- The shortcut for a table without names makes no difference. -/
theorem expand_eq (table : MacroTable) (line : String) (keep : Option Span) :
    (table.expand line keep).toList = table.expandFrom keep 0 (Lexeme.split line.toList) := by
  unfold expand
  split
  · next empty =>
      have nothing : ∀ name, table.isDefined name = false := by
        intro name
        have entries : table.entries = [] := by simpa [isEmpty] using empty
        simp [isDefined, get?, entries]
      rw [expand_from_settled (fun word _ => nothing _), Lexeme.flat_map_text_split]
  · simp

theorem expand_from_eq_self {line : List Char} (settled : table.Settled line) (keep : Option Span) :
    table.expandFrom keep 0 (Lexeme.split line) = line := by
  rw [expand_from_settled settled, Lexeme.flat_map_text_split]

theorem replaced_eq_self {line : List Char} (settled : table.Settled line) :
    table.replaced line = line := by
  have same := expand_from_eq_self settled none
  rwa [expand_from_none] at same

end MacroTable

end FortranDeps.Preprocess

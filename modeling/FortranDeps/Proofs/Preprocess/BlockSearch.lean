import FortranDeps.Proofs.Preprocess.Parts

/-!
The search for the end of a block, against the nesting of the items behind its opening. The end
stands where as many inner blocks were closed as opened for the first time; the search finds it,
with the alternative before it, unless a directive before it can not be accepted.
-/

namespace FortranDeps.Preprocess.Block

/-- The items strictly between two positions. -/
def between (items : List Item) (opening position : Nat) : List Item :=
  slice items (opening + 1, position)

def opened (items : List Item) (opening position : Nat) : Nat :=
  (between items opening position).countP Item.opensBlock

def closed (items : List Item) (opening position : Nat) : Nat :=
  (between items opening position).countP Item.closesBlock

/-- A directive at the depth of the block: up to its position as many inner blocks are closed as
opened, and nowhere on the way more. -/
structure StandsAt (items : List Item) (opening : Nat) (directive : Directive) (position : Nat) :
    Prop where
  behind : opening < position
  holds : ∃ item, items[position]? = some item ∧ item.directive = some directive
  balanced : closed items opening position = opened items opening position
  nested : ∀ middle ≤ position, closed items opening middle ≤ opened items opening middle

/-- The end of a block without a condition on an expression and with at most one alternative. -/
structure Closes (items : List Item) (opening ending : Nat) : Prop where
  ends : StandsAt items opening .endIf ending
  supported : ∀ item ∈ between items opening ending, ∀ keyword,
    item.directive ≠ some (.unsupported keyword)
  single : ∀ first < ending, ∀ second < ending, StandsAt items opening .otherwise first →
    StandsAt items opening .otherwise second → first = second

/-- An item behind the opening that a block can not have. -/
inductive Offends (items : List Item) (opening : Nat) (location : Location) (position : Nat)
    (item : Item) : StructureFault → Prop where
  | expression {keyword : String} (behind : opening < position)
      (here : items[position]? = some item)
      (directive : item.directive = some (.unsupported keyword)) :
      Offends items opening location position item (.unsupported keyword)
  | alternative {first : Nat} (here : items[position]? = some item) (earlier : first < position)
      (turns : StandsAt items opening .otherwise first)
      (again : StandsAt items opening .otherwise position) :
      Offends items opening location position item (.secondAlternative location)

/-- The first item of that kind, with no end of the block before it. -/
structure FirstOffence (items : List Item) (opening : Nat) (location : Location) (position : Nat)
    (item : Item) (fault : StructureFault) : Prop where
  offends : Offends items opening location position item fault
  first : ∀ earlier < position, ∀ other otherFault,
    ¬Offends items opening location earlier other otherFault
  unended : ∀ ending < position, ¬StandsAt items opening .endIf ending

def InRange (range : Nat × Nat) (position : Nat) : Prop := range.1 ≤ position ∧ position < range.2

/-- The positions of a block lie in the list, and its two ranges and the alternative part the
positions between its opening and its end. -/
structure Fits (block : Block) (items : List Item) : Prop where
  ends_behind : block.opening < block.ending
  ends_inside : block.ending < items.length
  alternative_inside : ∀ position, block.alternative = some position →
    block.opening < position ∧ position < block.ending
  then_bounds : block.thenRange.1 ≤ block.thenRange.2 ∧ block.thenRange.2 ≤ items.length
  else_bounds : block.elseRange.1 ≤ block.elseRange.2 ∧ block.elseRange.2 ≤ items.length
  covered : ∀ position, block.opening < position ∧ position < block.ending ↔
    InRange block.thenRange position ∨ block.alternative = some position ∨
      InRange block.elseRange position
  disjoint : ∀ position, InRange block.thenRange position → ¬InRange block.elseRange position
  alternative_outside : ∀ position, block.alternative = some position →
    ¬InRange block.thenRange position ∧ ¬InRange block.elseRange position

section Positions

variable {items : List Item} {opening index : Nat} {item : Item}

theorem between_succ (behind : opening < index) (here : items[index]? = some item) :
    between items opening (index + 1) = between items opening index ++ [item] := by
  obtain ⟨inside, same⟩ := List.getElem?_eq_some_iff.mp here
  have length : index + 1 - (opening + 1) = index - (opening + 1) + 1 := by omega
  have place : opening + 1 + (index - (opening + 1)) = index := by omega
  simp only [between, slice, length, List.take_add_one, List.getElem?_drop, place, here]
  rfl

theorem opened_succ (behind : opening < index) (here : items[index]? = some item) :
    opened items opening (index + 1) =
      opened items opening index + if item.opensBlock then 1 else 0 := by
  rw [opened, opened, between_succ behind here, List.countP_append, List.countP_singleton]

theorem closed_succ (behind : opening < index) (here : items[index]? = some item) :
    closed items opening (index + 1) =
      closed items opening index + if item.closesBlock then 1 else 0 := by
  rw [closed, closed, between_succ behind here, List.countP_append, List.countP_singleton]

theorem between_start (items : List Item) {opening middle : Nat} (bound : middle ≤ opening + 1) :
    between items opening middle = [] := by
  have none : middle - (opening + 1) = 0 := by omega
  simp [between, slice, none]

theorem get_elem?_of_mem_between {ending : Nat} (member : item ∈ between items opening ending) :
    ∃ position, opening < position ∧ position < ending ∧ items[position]? = some item := by
  obtain ⟨offset, here⟩ := List.mem_iff_getElem?.mp member
  simp only [between, slice, List.getElem?_take, List.getElem?_drop] at here
  split at here
  · next short => exact ⟨opening + 1 + offset, by omega, by omega, here⟩
  · cases here

theorem mem_between {ending position : Nat} (behind : opening < position)
    (before : position < ending) (here : items[position]? = some item) :
    item ∈ between items opening ending := by
  apply List.mem_iff_getElem?.mpr
  refine ⟨position - (opening + 1), ?_⟩
  have short : position - (opening + 1) < ending - (opening + 1) := by omega
  have place : opening + 1 + (position - (opening + 1)) = position := by omega
  simp only [between, slice, List.getElem?_take, List.getElem?_drop, if_pos short, place, here]

end Positions

section Ends

variable {items : List Item} {opening : Nat}

/-- Behind the end of a block more blocks are closed than opened. -/
theorem StandsAt.le_ending {ending position : Nat} {directive : Directive}
    (ends : StandsAt items opening .endIf ending)
    (stands : StandsAt items opening directive position) : position ≤ ending := by
  by_contra later
  obtain ⟨item, here, closes⟩ := ends.holds
  have opens : item.opensBlock = false := by
    simp [Item.opensBlock, closes, Directive.opensBlock]
  have ended : item.closesBlock = true := by
    simp [Item.closesBlock, closes, Directive.closesBlock]
  have nested := stands.nested (ending + 1) (by omega)
  rw [opened_succ ends.behind here, closed_succ ends.behind here, ends.balanced, opens, ended]
    at nested
  simp at nested

/-- There is only one end. -/
theorem StandsAt.ending_unique {first second : Nat} (ends : StandsAt items opening .endIf first)
    (other : StandsAt items opening .endIf second) : first = second :=
  Nat.le_antisymm (other.le_ending ends) (ends.le_ending other)

theorem Offends.position_ne {location : Location} {position ending : Nat} {item : Item}
    {fault : StructureFault} (offends : Offends items opening location position item fault)
    (ends : StandsAt items opening .endIf ending) : position ≠ ending := by
  rintro rfl
  obtain ⟨other, here, closes⟩ := ends.holds
  cases offends with
  | expression behind own directive =>
      obtain rfl := Option.some.inj (own.symm.trans here)
      rw [closes] at directive
      cases directive
  | alternative own earlier turns again =>
      obtain ⟨turned, there, directive⟩ := again.holds
      obtain rfl := Option.some.inj (there.symm.trans here)
      rw [closes] at directive
      cases directive

/-- A block with a good end has no offence before it. -/
theorem Closes.not_offends {location : Location} {ending position : Nat} {item : Item}
    {fault : StructureFault} (closes : Closes items opening ending) (before : position < ending) :
    ¬Offends items opening location position item fault := by
  intro offends
  cases offends with
  | expression behind here directive =>
      exact closes.supported item (mem_between behind before here) _ directive
  | alternative here earlier turns again =>
      have same := closes.single _ (earlier.trans before) _ before turns again
      exact absurd same (Nat.ne_of_lt earlier)

theorem Closes.not_first_offence {location : Location} {ending position : Nat} {item : Item}
    {fault : StructureFault} (closes : Closes items opening ending) :
    ¬FirstOffence items opening location position item fault := by
  intro offence
  rcases Nat.lt_trichotomy position ending with before | same | later
  · exact closes.not_offends before offence.offends
  · exact offence.offends.position_ne closes.ends same
  · exact offence.unended ending later closes.ends

theorem Offends.fault_unique {location : Location} {position : Nat} {item other : Item}
    {fault otherFault : StructureFault}
    (offends : Offends items opening location position item fault)
    (again : Offends items opening location position other otherFault) :
    item = other ∧ fault = otherFault := by
  have mixed {keyword : String} {item : Item} (here : items[position]? = some item)
      (directive : item.directive = some (.unsupported keyword))
      (turns : StandsAt items opening .otherwise position) : False := by
    obtain ⟨turned, there, otherwise⟩ := turns.holds
    obtain rfl := Option.some.inj (there.symm.trans here)
    rw [directive] at otherwise
    cases otherwise
  cases offends with
  | expression behind here directive =>
      cases again with
      | expression _ there otherDirective =>
          obtain rfl := Option.some.inj (here.symm.trans there)
          rw [directive] at otherDirective
          cases otherDirective
          exact ⟨rfl, rfl⟩
      | alternative _ _ _ turns => exact (mixed here directive turns).elim
  | alternative here _ _ turns =>
      cases again with
      | expression _ there directive => exact (mixed there directive turns).elim
      | alternative there _ _ _ => exact ⟨Option.some.inj (here.symm.trans there), rfl⟩

theorem FirstOffence.unique {location : Location} {position other : Nat} {item otherItem : Item}
    {fault otherFault : StructureFault}
    (offence : FirstOffence items opening location position item fault)
    (again : FirstOffence items opening location other otherItem otherFault) :
    item = otherItem ∧ fault = otherFault := by
  have notBefore : ¬position < other := fun before => again.first _ before _ _ offence.offends
  have notBehind : ¬other < position := fun behind => offence.first _ behind _ _ again.offends
  obtain rfl : position = other := by omega
  exact offence.offends.fault_unique again.offends

end Ends

/-! The search. -/

/-- What the search knows when it comes to a position: the depth, the alternative, and that
nothing before the position has stopped it. -/
structure Scanned (items : List Item) (opening : Nat) (location : Location) (index depth : Nat)
    (alternative : Option Nat) : Prop where
  behind : opening < index
  counted : opened items opening index = closed items opening index + depth
  nested : ∀ middle ≤ index, closed items opening middle ≤ opened items opening middle
  unended : ∀ ending < index, ¬StandsAt items opening .endIf ending
  turned : ∀ position, alternative = some position ↔
    position < index ∧ StandsAt items opening .otherwise position
  clean : ∀ position < index, ∀ item fault,
    ¬Offends items opening location position item fault

namespace Scanned

variable {items : List Item} {opening index depth : Nat} {location : Location}
  {alternative : Option Nat} {item : Item}

theorem start (items : List Item) (opening : Nat) (location : Location) :
    Scanned items opening location (opening + 1) 0 none where
  behind := Nat.lt_succ_self opening
  counted := by simp [opened, closed, between_start]
  nested := by
    intro middle bound
    simp [opened, closed, between_start items bound]
  unended := by
    intro ending bound ends
    have behind := ends.behind
    omega
  turned := by
    intro position
    constructor
    · intro found
      cases found
    · rintro ⟨bound, turns⟩
      have behind := turns.behind
      omega
  clean := by
    intro position bound item fault offends
    cases offends with
    | expression behind _ _ => omega
    | alternative _ _ _ again =>
        have behind := again.behind
        omega

theorem stands_at_iff (scanned : Scanned items opening location index depth alternative)
    (here : items[index]? = some item) (directive : Directive) :
    StandsAt items opening directive index ↔ item.directive = some directive ∧ depth = 0 := by
  have counted := scanned.counted
  constructor
  · intro stands
    obtain ⟨other, there, holds⟩ := stands.holds
    obtain rfl := Option.some.inj (there.symm.trans here)
    have balanced := stands.balanced
    exact ⟨holds, by omega⟩
  · rintro ⟨holds, surface⟩
    exact ⟨scanned.behind, ⟨item, here, holds⟩, by omega, scanned.nested⟩

theorem not_ending (scanned : Scanned items opening location index depth alternative)
    (here : items[index]? = some item) (inner : item.directive = some .endIf → depth ≠ 0) :
    ¬StandsAt items opening .endIf index := by
  rw [scanned.stands_at_iff here]
  rintro ⟨closes, surface⟩
  exact inner closes surface

/-- An item that does not stop the search. -/
theorem advance (scanned : Scanned items opening location index depth alternative)
    (here : items[index]? = some item) {next : Nat} {turned : Option Nat}
    (counted : depth + (if item.opensBlock then 1 else 0) =
      next + if item.closesBlock then 1 else 0)
    (supported : ∀ keyword, item.directive ≠ some (.unsupported keyword))
    (inner : item.directive = some .endIf → depth ≠ 0)
    (turns : ∀ position, turned = some position ↔ alternative = some position ∨
      position = index ∧ item.directive = some .otherwise ∧ depth = 0)
    (single : item.directive = some .otherwise → depth = 0 → alternative = none) :
    Scanned items opening location (index + 1) next turned where
  behind := scanned.behind.trans (Nat.lt_succ_self index)
  counted := by
    have before := scanned.counted
    rw [opened_succ scanned.behind here, closed_succ scanned.behind here]
    omega
  nested := by
    intro middle bound
    rcases Nat.lt_or_eq_of_le bound with earlier | rfl
    · exact scanned.nested middle (Nat.le_of_lt_succ earlier)
    · have before := scanned.counted
      rw [opened_succ scanned.behind here, closed_succ scanned.behind here]
      omega
  unended := by
    intro ending bound ends
    rcases Nat.lt_or_eq_of_le (Nat.le_of_lt_succ bound) with earlier | rfl
    · exact scanned.unended ending earlier ends
    · exact scanned.not_ending here inner ends
  turned := by
    intro position
    rw [turns, scanned.turned]
    constructor
    · rintro (⟨earlier, stands⟩ | ⟨rfl, directive⟩)
      · exact ⟨by omega, stands⟩
      · exact ⟨Nat.lt_succ_self position, (scanned.stands_at_iff here _).mpr directive⟩
    · rintro ⟨bound, stands⟩
      rcases Nat.lt_or_eq_of_le (Nat.le_of_lt_succ bound) with earlier | rfl
      · exact .inl ⟨earlier, stands⟩
      · exact .inr ⟨rfl, (scanned.stands_at_iff here _).mp stands⟩
  clean := by
    intro position bound other fault offends
    rcases Nat.lt_or_eq_of_le (Nat.le_of_lt_succ bound) with earlier | rfl
    · exact scanned.clean position earlier other fault offends
    · cases offends with
      | expression _ there directive =>
          obtain rfl := Option.some.inj (there.symm.trans here)
          exact supported _ directive
      | @alternative first there earlier stands again =>
          obtain ⟨directive, surface⟩ := (scanned.stands_at_iff here _).mp again
          have found := (scanned.turned first).mpr ⟨earlier, stands⟩
          rw [single directive surface] at found
          cases found

end Scanned

/-- How a search ends. -/
inductive Outcome (items : List Item) (opening : Nat) (location : Location) :
    Except Diagnostic Block → Prop where
  | closed {block : Block} (from_opening : block.opening = opening)
      (closes : Closes items opening block.ending)
      (alternative : ∀ position, block.alternative = some position ↔
        position < block.ending ∧ StandsAt items opening .otherwise position) :
      Outcome items opening location (.ok block)
  | offended {position : Nat} {item : Item} {fault : StructureFault}
      (offence : FirstOffence items opening location position item fault) :
      Outcome items opening location (.error (fault.at item.line.location))
  | unclosed (unended : ∀ ending, ¬StandsAt items opening .endIf ending)
      (clean : ∀ position item fault, ¬Offends items opening location position item fault) :
      Outcome items opening location (.error (StructureFault.neverClosed.at location))

theorem outcome_of_close {items : List Item} {opening index depth : Nat} {location : Location}
    {alternative : Option Nat} {rest : List Item}
    (scanned : Scanned items opening location index depth alternative)
    (left : items.drop index = rest) :
    Outcome items opening location (close opening location rest index depth alternative) := by
  have head {item : Item} {tail : List Item} {index : Nat}
      (left : items.drop index = item :: tail) :
      items[index]? = some item ∧ items.drop (index + 1) = tail := by
    have first : items[index]? = some item := by
      rw [← List.head?_drop, left]
      rfl
    refine ⟨first, ?_⟩
    rw [← List.drop_drop, left]
    rfl
  fun_induction close opening location rest index depth alternative with
  | case1 index depth alternative =>
      have beyond : items.length ≤ index := List.drop_eq_nil_iff.mp left
      refine .unclosed ?_ ?_
      · intro ending ends
        obtain ⟨item, here, -⟩ := ends.holds
        obtain ⟨inside, -⟩ := List.getElem?_eq_some_iff.mp here
        exact scanned.unended ending (inside.trans_le beyond) ends
      · intro position item fault offends
        have inside : position < items.length := by
          cases offends with
          | expression _ here _ | alternative here _ _ _ =>
              exact (List.getElem?_eq_some_iff.mp here).1
        exact scanned.clean position (inside.trans_le beyond) item fault offends
  | case2 item rest index depth alternative name directive induction
  | case3 item rest index depth alternative name directive induction =>
      obtain ⟨here, later⟩ := head left
      refine induction (scanned.advance here ?_ ?_ ?_ ?_ ?_) later
      all_goals simp [Item.opensBlock, Item.closesBlock, directive, Directive.opensBlock,
        Directive.closesBlock]
  | case4 item rest index alternative directive =>
      obtain ⟨here, -⟩ := head left
      refine .closed rfl ⟨(scanned.stands_at_iff here _).mpr ⟨directive, rfl⟩, ?_, ?_⟩
        scanned.turned
      · intro other member keyword unsupported
        obtain ⟨position, behind, before, there⟩ := get_elem?_of_mem_between member
        exact scanned.clean position before other _ (.expression behind there unsupported)
      · intro first firstBefore second secondBefore turns again
        have found := (scanned.turned first).mpr ⟨firstBefore, turns⟩
        have other := (scanned.turned second).mpr ⟨secondBefore, again⟩
        exact Option.some.inj (found.symm.trans other)
  | case5 item rest index alternative directive outer induction =>
      obtain ⟨here, later⟩ := head left
      refine induction (scanned.advance here ?_ ?_ ?_ ?_ ?_) later
      all_goals simp [Item.opensBlock, Item.closesBlock, directive, Directive.opensBlock,
        Directive.closesBlock]
  | case6 item rest index directive induction =>
      obtain ⟨here, later⟩ := head left
      refine induction (scanned.advance here ?_ ?_ ?_ ?_ ?_) later
      all_goals simp [Item.opensBlock, Item.closesBlock, directive, Directive.opensBlock,
        Directive.closesBlock, eq_comm]
  | case7 item rest index directive first =>
      obtain ⟨here, -⟩ := head left
      obtain ⟨earlier, turns⟩ := (scanned.turned first).mp rfl
      have again := (scanned.stands_at_iff here .otherwise).mpr ⟨directive, rfl⟩
      exact .offended ⟨.alternative here earlier turns again, scanned.clean, scanned.unended⟩
  | case8 item rest index alternative directive inner induction =>
      obtain ⟨here, later⟩ := head left
      refine induction (scanned.advance here ?_ ?_ ?_ ?_ ?_) later
      all_goals simp [Item.opensBlock, Item.closesBlock, directive, Directive.opensBlock,
        Directive.closesBlock]
  | case9 item rest index depth alternative keyword directive =>
      obtain ⟨here, -⟩ := head left
      exact .offended ⟨.expression scanned.behind here directive, scanned.clean, scanned.unended⟩
  | case10 item rest index depth alternative defined undefined ends turns unsupported induction =>
      obtain ⟨here, later⟩ := head left
      have opens : item.opensBlock = false := by
        rw [Bool.eq_false_iff]
        intro opens
        rcases Item.directive_of_opens_block opens with ⟨name, directive⟩ | ⟨name, directive⟩
        · exact defined name directive
        · exact undefined name directive
      have closes : item.closesBlock = false := by
        unfold Item.closesBlock
        cases directive : item.directive with
        | none => rfl
        | some other => cases other <;> simp_all [Directive.closesBlock]
      refine induction (scanned.advance here ?_ unsupported ?_ ?_ ?_) later
      · simp [opens, closes]
      · intro directive
        exact (ends directive).elim
      · intro position
        constructor
        · exact .inl
        · rintro (found | ⟨-, directive, -⟩)
          · exact found
          · exact (turns directive).elim
      · intro directive
        exact (turns directive).elim

theorem fits_of_closes {items : List Item} {block : Block}
    (closes : Closes items block.opening block.ending)
    (alternative : ∀ position, block.alternative = some position ↔
      position < block.ending ∧ StandsAt items block.opening .otherwise position) :
    block.Fits items := by
  obtain ⟨opening, turned, ending⟩ := block
  have behind : opening < ending := closes.ends.behind
  have inside : ending < items.length := by
    obtain ⟨item, here, -⟩ := closes.ends.holds
    exact (List.getElem?_eq_some_iff.mp here).1
  cases turned with
  | none =>
      constructor <;> simp only [thenRange, elseRange, InRange, Option.getD_none] <;> grind
  | some position =>
      obtain ⟨before, turns⟩ := (alternative position).mp rfl
      have after : opening < position := turns.behind
      constructor <;> simp only [thenRange, elseRange, InRange, Option.getD_some] <;> grind

namespace Outcome

variable {items : List Item} {opening : Nat} {location : Location}
  {result : Except Diagnostic Block}

theorem eq_ok_iff (outcome : Outcome items opening location result) {block : Block} :
    result = .ok block ↔ block.opening = opening ∧ Closes items opening block.ending ∧
      ∀ position, block.alternative = some position ↔
        position < block.ending ∧ StandsAt items opening .otherwise position := by
  cases outcome with
  | @closed found from_opening closes alternative =>
      constructor
      · rintro ⟨⟩
        exact ⟨from_opening, closes, alternative⟩
      · rintro ⟨own, otherCloses, otherAlternative⟩
        have ending : found.ending = block.ending := closes.ends.ending_unique otherCloses.ends
        have turned : found.alternative = block.alternative := by
          apply Option.ext
          intro position
          rw [alternative, otherAlternative, ending]
        have whole : found = block := by
          cases found
          cases block
          simp_all
        rw [whole]
  | offended offence =>
      constructor
      · rintro ⟨⟩
      · rintro ⟨-, closes, -⟩
        exact absurd offence closes.not_first_offence
  | unclosed unended clean =>
      constructor
      · rintro ⟨⟩
      · rintro ⟨-, closes, -⟩
        exact absurd closes.ends (unended _)

theorem exists_ok_iff (outcome : Outcome items opening location result) :
    (∃ block, result = .ok block) ↔ ∃ ending, Closes items opening ending := by
  constructor
  · rintro ⟨block, found⟩
    exact ⟨block.ending, (outcome.eq_ok_iff.mp found).2.1⟩
  · rintro ⟨ending, closes⟩
    cases outcome with
    | closed => exact ⟨_, rfl⟩
    | offended offence => exact absurd offence closes.not_first_offence
    | unclosed unended clean => exact absurd closes.ends (unended _)

theorem eq_error_iff (outcome : Outcome items opening location result) {diagnostic : Diagnostic} :
    result = .error diagnostic ↔
      (∃ position item fault, FirstOffence items opening location position item fault ∧
        diagnostic = fault.at item.line.location) ∨
      (∀ ending, ¬StandsAt items opening .endIf ending) ∧
        (∀ position item fault, ¬Offends items opening location position item fault) ∧
        diagnostic = StructureFault.neverClosed.at location := by
  cases outcome with
  | closed _ closes _ =>
      constructor
      · rintro ⟨⟩
      · rintro (⟨_, _, _, offence, -⟩ | ⟨unended, -, -⟩)
        · exact absurd offence closes.not_first_offence
        · exact absurd closes.ends (unended _)
  | @offended position item fault offence =>
      constructor
      · rintro ⟨⟩
        exact .inl ⟨position, item, fault, offence, rfl⟩
      · rintro (⟨_, _, _, again, rfl⟩ | ⟨-, clean, -⟩)
        · obtain ⟨rfl, rfl⟩ := offence.unique again
          rfl
        · exact absurd offence.offends (clean _ _ _)
  | unclosed unended clean =>
      constructor
      · rintro ⟨⟩
        exact .inr ⟨unended, clean, rfl⟩
      · rintro (⟨_, _, _, offence, -⟩ | ⟨-, -, rfl⟩)
        · exact absurd offence.offends (clean _ _ _)
        · rfl

theorem fits (outcome : Outcome items opening location result) {block : Block}
    (found : result = .ok block) : block.Fits items := by
  obtain ⟨rfl, closes, alternative⟩ := outcome.eq_ok_iff.mp found
  exact fits_of_closes closes alternative

end Outcome

/-- The search for a block is exact, whatever item opens it. It finds a block exactly if there is a
good end behind the opening; this end is the only one, the alternative is the one before it, and the
positions part the list. It fails at the first item that a block can not have, if the block has no
end before it, and at the opening if there is neither an end nor such an item. -/
theorem find_block_exact {items : List Item} {opening : Nat} {start : Item}
    (inside : items[opening]? = some start) :
    ∃ result, find? items opening = some result ∧
      (∀ block, result = .ok block ↔ block.opening = opening ∧ Closes items opening block.ending ∧
        ∀ position, block.alternative = some position ↔
          position < block.ending ∧ StandsAt items opening .otherwise position) ∧
      ((∃ block, result = .ok block) ↔ ∃ ending, Closes items opening ending) ∧
      (∀ ending other, Closes items opening ending → Closes items opening other →
        ending = other) ∧
      (∀ block, result = .ok block → block.Fits items) ∧
      ∀ diagnostic, result = .error diagnostic ↔
        (∃ position item fault,
          FirstOffence items opening start.line.location position item fault ∧
          diagnostic = fault.at item.line.location) ∨
        (∀ ending, ¬StandsAt items opening .endIf ending) ∧
          (∀ position item fault,
            ¬Offends items opening start.line.location position item fault) ∧
          diagnostic = StructureFault.neverClosed.at start.line.location := by
  obtain ⟨bound, same⟩ := List.getElem?_eq_some_iff.mp inside
  have searched : find? items opening = some (close opening start.line.location
      (items.drop (opening + 1)) (opening + 1) 0 none) := by
    rw [find?, List.drop_eq_getElem_cons bound, same]
  have outcome := outcome_of_close (Scanned.start items opening start.line.location) rfl
  refine ⟨_, searched, fun _ => outcome.eq_ok_iff, outcome.exists_ok_iff, ?_,
    fun _ => outcome.fits, fun _ => outcome.eq_error_iff⟩
  intro ending other closes again
  exact closes.ends.ending_unique again.ends

/-- A block with an inner block that has an alternative of its own, and behind it a block that is
never closed. -/
def nestedItems : List Item :=
  [⟨⟨"#ifdef A", ⟨"a.F90", 1⟩⟩, some (.ifDefined "A")⟩,
    ⟨⟨"#ifndef B", ⟨"a.F90", 2⟩⟩, some (.ifUndefined "B")⟩,
    ⟨⟨"#else", ⟨"a.F90", 3⟩⟩, some .otherwise⟩, ⟨⟨"#endif", ⟨"a.F90", 4⟩⟩, some .endIf⟩,
    ⟨⟨"#else", ⟨"a.F90", 5⟩⟩, some .otherwise⟩, ⟨⟨"use m", ⟨"a.F90", 6⟩⟩, none⟩,
    ⟨⟨"#endif", ⟨"a.F90", 7⟩⟩, some .endIf⟩, ⟨⟨"#ifdef C", ⟨"a.F90", 8⟩⟩, some (.ifDefined "C")⟩]

theorem nested_block_found :
    nestedItems[0]? = some ⟨⟨"#ifdef A", ⟨"a.F90", 1⟩⟩, some (.ifDefined "A")⟩ ∧
      find? nestedItems 0 = some (.ok ⟨0, some 4, 6⟩) ∧ Closes nestedItems 0 6 ∧
      StandsAt nestedItems 0 .otherwise 4 ∧ Fits ⟨0, some 4, 6⟩ nestedItems ∧
      ∀ ending, ¬StandsAt nestedItems 7 .endIf ending := by
  have known : find? nestedItems 0 = some (.ok ⟨0, some 4, 6⟩) := rfl
  have failed : find? nestedItems 7 =
      some (.error (StructureFault.neverClosed.at ⟨"a.F90", 8⟩)) := rfl
  obtain ⟨result, found, blocks, -, -, fits, -⟩ := @find_block_exact nestedItems 0 _ rfl
  obtain rfl := Option.some.inj (found.symm.trans known)
  obtain ⟨-, closes, alternative⟩ := (blocks ⟨0, some 4, 6⟩).mp rfl
  obtain ⟨result, found, -, -, -, -, faults⟩ := @find_block_exact nestedItems 7 _ rfl
  obtain rfl := Option.some.inj (found.symm.trans failed)
  refine ⟨rfl, known, closes, ((alternative 4).mp rfl).2, fits _ rfl, ?_⟩
  rcases (faults _).mp rfl with ⟨position, item, fault, offence, -⟩ | ⟨unended, -, -⟩
  · -- Nothing stands behind the opening of the second block.
    have inside : position < 8 := by
      cases offence.offends with
      | expression _ here _ | alternative here _ _ _ =>
          exact (List.getElem?_eq_some_iff.mp here).1
    have behind : 7 < position := by
      cases offence.offends with
      | expression behind _ _ => exact behind
      | alternative _ _ _ again => exact again.behind
    omega
  · exact unended

end FortranDeps.Preprocess.Block

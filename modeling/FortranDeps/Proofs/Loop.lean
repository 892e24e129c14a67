import Mathlib.Logic.Relation

/-!
Loops, given by what one turn does: it ends the loop with a result, or gives the state to go on
with. A loop ends with one result at most, and with one at least if no state can be followed by
others for ever.
-/

namespace FortranDeps.Loop

variable {State Result : Type} (turn : State → Result ⊕ State)

/-- The loop goes on from one state to another. -/
def Turns (earlier later : State) : Prop := turn earlier = .inr later

def Reaches : State → State → Prop := Relation.ReflTransGen (Turns turn)

/-- The loop comes to an end with a result. -/
def Ends (state : State) (result : Result) : Prop :=
  ∃ last, Reaches turn state last ∧ turn last = .inl result

variable {turn}

theorem ends_of_turn {state : State} {result : Result} (done : turn state = .inl result) :
    Ends turn state result := ⟨state, .refl, done⟩

theorem Turns.reaches {earlier later : State} (turns : Turns turn earlier later) :
    Reaches turn earlier later := Relation.ReflTransGen.single turns

theorem Reaches.ends {earlier later : State} {result : Result}
    (reaches : Reaches turn earlier later) (ends : Ends turn later result) :
    Ends turn earlier result := by
  obtain ⟨last, again, done⟩ := ends
  exact ⟨last, reaches.trans again, done⟩

theorem Turns.ends {earlier later : State} {result : Result} (turns : Turns turn earlier later)
    (ends : Ends turn later result) : Ends turn earlier result :=
  Reaches.ends turns.reaches ends

/-- Nothing else is reached from a state in which the loop ends. -/
theorem Reaches.eq_of_turn {earlier later : State} {result : Result}
    (reaches : Reaches turn earlier later) (done : turn earlier = .inl result) :
    earlier = later := by
  rcases Relation.ReflTransGen.cases_head reaches with same | ⟨next, turns, -⟩
  · exact same
  · rw [Turns, done] at turns
    cases turns

theorem Ends.unique {state : State} {first second : Result} (ends : Ends turn state first)
    (again : Ends turn state second) : first = second := by
  obtain ⟨last, reaches, done⟩ := ends
  obtain ⟨other, leads, stopped⟩ := again
  have function : Relator.RightUnique (Turns turn) := by
    intro start second third turns other
    exact Sum.inr.inj (turns.symm.trans other)
  have same : last = other := by
    rcases Relation.ReflTransGen.total_of_right_unique function reaches leads with later | earlier
    · exact Reaches.eq_of_turn later done
    · exact (Reaches.eq_of_turn earlier stopped).symm
  rw [same, stopped] at done
  exact (Sum.inl.inj done).symm

theorem Ends.iff_eq {state : State} {outcome : Result} (ends : Ends turn state outcome)
    (result : Result) : Ends turn state result ↔ result = outcome := by
  constructor
  · intro other
    exact other.unique ends
  · rintro rfl
    exact ends

/-- What every turn keeps holds in all states that are reached. -/
theorem Reaches.keeps {Invariant : State → Prop}
    (kept : ∀ earlier later, Invariant earlier → Turns turn earlier later → Invariant later)
    {earlier later : State} (reaches : Reaches turn earlier later) (holds : Invariant earlier) :
    Invariant later := by
  induction reaches with
  | refl => exact holds
  | tail _ turns known => exact kept _ _ known turns

/-- A loop whose turns keep an outcome ends with it. -/
theorem ends_iff (Invariant : State → Prop) (outcome : State → Result)
    (wellFounded : WellFounded fun later earlier => Turns turn earlier later)
    (kept : ∀ earlier later, Invariant earlier → Turns turn earlier later →
      Invariant later ∧ outcome later = outcome earlier)
    (last : ∀ state result, Invariant state → turn state = .inl result → result = outcome state)
    {state : State} (holds : Invariant state) (result : Result) :
    Ends turn state result ↔ result = outcome state := by
  have ends : Ends turn state (outcome state) := by
    induction state using wellFounded.induction with
    | _ state induction =>
        cases next : turn state with
        | inl result =>
            rw [← last state result holds next]
            exact ends_of_turn next
        | inr later =>
            obtain ⟨still, same⟩ := kept state later holds next
            rw [← same]
            exact Turns.ends next (induction later next still)
  exact ends.iff_eq result

end FortranDeps.Loop

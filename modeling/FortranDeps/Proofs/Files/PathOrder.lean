import FortranDeps.Path
import Mathlib

/-!
The order of paths, component by component: the root first, then the current and the parent
directory, then names. It is a strict order in which paths of different components are comparable,
so sorting paths of different components leaves them strictly ascending.
-/

namespace FortranDeps

namespace Component

/-- Components of different kinds come in the order of their kinds, and names in their own. -/
theorem before_iff {first second : Component} :
    first.before second = true ↔ first.rank < second.rank ∨
      ∃ name other, first = .normal name ∧ second = .normal other ∧ name < other := by
  unfold before
  split
  · next name other =>
      rw [decide_eq_true_iff]
      constructor
      · intro less
        exact .inr ⟨name, other, rfl, rfl, less⟩
      · rintro (less | ⟨_, _, same, again, less⟩)
        · exact absurd less (Nat.lt_irrefl _)
        · cases same
          cases again
          exact less
  · next mixed =>
      rw [decide_eq_true_iff]
      constructor
      · exact .inl
      · rintro (less | ⟨name, other, rfl, rfl, -⟩)
        · exact less
        · exact absurd rfl (mixed name other rfl)

theorem before_irrefl (component : Component) : ¬component.before component = true := by
  rw [before_iff]
  rintro (less | ⟨name, other, rfl, same, less⟩)
  · exact Nat.lt_irrefl _ less
  · cases same
    exact String.lt_irrefl name less

theorem before_trans {first second third : Component} (less : first.before second = true)
    (later : second.before third = true) : first.before third = true := by
  rw [before_iff] at less later ⊢
  rcases less with less | ⟨name, other, rfl, rfl, less⟩
  · rcases later with later | ⟨name, other, rfl, rfl, later⟩
    · exact .inl (less.trans later)
    · exact .inl less
  · rcases later with later | ⟨name', last, same, rfl, later⟩
    · exact .inl later
    · cases same
      exact .inr ⟨name, last, rfl, rfl, String.lt_trans less later⟩

theorem eq_of_not_before {first second : Component} (notLess : ¬first.before second = true)
    (notGreater : ¬second.before first = true) : first = second := by
  rw [before_iff, not_or, Nat.not_lt] at notLess notGreater
  have ranks := Nat.le_antisymm notGreater.1 notLess.1
  cases first <;> cases second <;> simp only [rank, Nat.reduceEqDiff] at ranks
  · rfl
  · rfl
  · rfl
  · next name other =>
      have bound : ¬name < other := fun less => notLess.2 ⟨name, other, rfl, rfl, less⟩
      have converse : ¬other < name := fun less => notGreater.2 ⟨other, name, rfl, rfl, less⟩
      rw [String.le_antisymm (String.not_lt.mp converse) (String.not_lt.mp bound)]

instance : IsStrictTotalOrder Component fun first second => first.before second = true where
  irrefl := before_irrefl
  trans _ _ _ := before_trans
  trichotomous _ _ := eq_of_not_before

end Component

namespace Path

/-- Component by component, and a path before those that go on behind it. -/
def Precedes (first second : Path) : Prop :=
  List.Lex (fun first second => first.before second = true) first.components second.components

theorem components_before_iff {first second : List Component} :
    componentsBefore first second = true ↔
      List.Lex (fun first second => first.before second = true) first second := by
  induction first generalizing second with
  | nil =>
      cases second with
      | nil => simp [componentsBefore]
      | cons next rest => simp [componentsBefore]
  | cons component components induction =>
      cases second with
      | nil => simp [componentsBefore]
      | cons next rest =>
          rw [componentsBefore, Bool.or_eq_true, Bool.and_eq_true, beq_iff_eq, induction,
            List.cons_lex_cons_iff]

theorem before_iff {first second : Path} : first.before second = true ↔ first.Precedes second :=
  components_before_iff

/-- Paths of different components are strictly ascending when they are sorted. -/
theorem merge_sort_ascending {paths : List Path} (distinct : (paths.map components).Nodup) :
    (paths.mergeSort fun first second => !second.before first).Pairwise Precedes := by
  have ascending : (paths.mergeSort fun first second => !second.before first).Pairwise
      fun first second => (!second.before first) = true := by
    apply List.pairwise_mergeSort
    · intro first second third firstBound secondBound
      rw [Bool.not_eq_true', Bool.eq_false_iff, Ne, before_iff, Precedes]
        at firstBound secondBound ⊢
      exact IsOrderConnected.neg_trans secondBound firstBound
    · intro first second
      rw [Bool.or_eq_true, Bool.not_eq_true', Bool.not_eq_true', Bool.eq_false_iff,
        Bool.eq_false_iff, Ne, Ne, before_iff, before_iff, Precedes, Precedes, ← not_and_or]
      rintro ⟨less, greater⟩
      exact Std.Asymm.asymm _ _ less greater
  have apart : (paths.mergeSort fun first second => !second.before first).Pairwise
      fun first second => first.components ≠ second.components := by
    rw [← List.pairwise_map (f := components) (R := (· ≠ ·))]
    exact ((List.mergeSort_perm paths _).map components).nodup_iff.mpr distinct
  refine ascending.imp₂ ?_ apart
  intro first second bound differ
  rw [Bool.not_eq_true', Bool.eq_false_iff, Ne, before_iff] at bound
  by_contra notLess
  exact differ (Std.Trichotomous.trichotomous _ _ notLess bound)

end Path

end FortranDeps

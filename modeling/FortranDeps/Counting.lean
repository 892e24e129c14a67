/-!
Counting the elements of a list that satisfy a test. Searches over a finite set end
because the number of elements they have not met yet goes down.
-/

namespace FortranDeps.Counting

variable {Element : Type}

theorem length_filter_le {few many : Element → Bool} (elements : List Element)
    (weaker : ∀ element, few element = true → many element = true) :
    (elements.filter few).length ≤ (elements.filter many).length := by
  rw [← List.countP_eq_length_filter, ← List.countP_eq_length_filter]
  exact List.countP_mono_left fun element _ => weaker element

theorem length_filter_lt {few many : Element → Bool} {elements : List Element}
    (weaker : ∀ element, few element = true → many element = true) {extra : Element}
    (member : extra ∈ elements) (counted : many extra = true) (dropped : few extra = false) :
    (elements.filter few).length < (elements.filter many).length := by
  induction elements with
  | nil => simp at member
  | cons first rest induction =>
      rcases List.mem_cons.mp member with same | later
      · subst same
        rw [List.filter_cons_of_neg (by simp [dropped]), List.filter_cons_of_pos counted]
        exact Nat.lt_succ_of_le (length_filter_le rest weaker)
      · have smaller := induction later
        by_cases kept : few first = true
        · rw [List.filter_cons_of_pos kept, List.filter_cons_of_pos (weaker first kept)]
          exact Nat.succ_lt_succ smaller
        · rw [List.filter_cons_of_neg kept]
          exact Nat.lt_of_lt_of_le smaller
            (List.Sublist.filter many (List.sublist_cons_self ..)).length_le

end FortranDeps.Counting

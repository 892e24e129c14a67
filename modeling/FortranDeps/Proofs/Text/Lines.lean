import FortranDeps.Proofs.Text.Runs
import FortranDeps.Text.Split

/-!
Lines of a text. No line holds a line feed, and lines that are written with a line feed behind each
of them are read as they were, but for a carriage return at their end.
-/

namespace FortranDeps.Text

theorem mem_of_mem_drop_return {line : List Char} {c : Char} (member : c ∈ dropReturn line) :
    c ∈ line := by
  unfold dropReturn at member
  split at member
  · exact List.dropLast_subset line member
  · exact member

theorem not_mem_of_mem_lines {text line : List Char} (member : line ∈ lines text) :
    '\n' ∉ line := by
  fun_induction lines text with
  | case1 => cases member
  | case2 text _ unended =>
      cases List.mem_singleton.mp member
      intro inside
      have passed := List.dropWhile_eq_nil_iff.mp unended '\n' inside
      simp at passed
  | case3 text _ first rest ended induction =>
      rcases List.mem_cons.mp member with rfl | later
      · intro inside
        have passed := List.mem_takeWhile_imp (mem_of_mem_drop_return inside)
        simp at passed
      · exact induction later

theorem lines_cons {line : List Char} (single : '\n' ∉ line) (rest : List Char) :
    lines (line ++ '\n' :: rest) = dropReturn line :: lines rest := by
  have members : ∀ c ∈ line, decide (c ≠ '\n') = true := by
    rintro c member
    exact decide_eq_true fun same => single (same ▸ member)
  have stops : Stops (fun c => decide (c ≠ '\n')) ('\n' :: rest) := stops_cons (by decide) rest
  have ended := drop_while_run members stops
  rw [lines, if_neg (by simp)]
  split
  · next unended =>
      rw [ended] at unended
      cases unended
  · next first later found =>
      rw [ended] at found
      cases found
      rw [take_while_run members stops]

/-- Lines that are written one after the other are read again. -/
theorem lines_written {texts : List (List Char)} (single : ∀ text ∈ texts, '\n' ∉ text) :
    lines (texts.flatMap (· ++ ['\n'])) = texts.map dropReturn := by
  induction texts with
  | nil => simp [lines]
  | cons text rest induction =>
      obtain ⟨own, others⟩ := List.forall_mem_cons.mp single
      rw [List.flatMap_cons, List.append_assoc, List.singleton_append, lines_cons own,
        induction others, List.map_cons]

end FortranDeps.Text

import FortranDeps.Build.Listing
import FortranDeps.Build.ObjectName
import FortranDeps.Proofs.Files.Paths

/-!
Objects and the rules between them. An assignment that succeeds names the object of every
source, no two sources share one, and a source is found whatever way its path is written.
The prerequisites of a target are listed in strictly ascending order.
-/

namespace FortranDeps.Build

/-! Ascending texts. -/

theorem mem_sorted {text : String} {texts : List String} : text ∈ sorted texts ↔ text ∈ texts :=
  List.mem_mergeSort

theorem sorted_ascending (texts : List String) : (sorted texts).Pairwise (· ≤ ·) := by
  have ascending : (sorted texts).Pairwise fun first second => decide (first ≤ second) = true := by
    apply List.pairwise_mergeSort
    · intro first second third firstBound secondBound
      rw [decide_eq_true_eq] at firstBound secondBound ⊢
      exact String.le_trans firstBound secondBound
    · intro first second
      rw [Bool.or_eq_true, decide_eq_true_eq, decide_eq_true_eq]
      exact String.le_total first second
  exact ascending.imp of_decide_eq_true

theorem sorted_strict {texts : List String} (nodup : texts.Nodup) :
    (sorted texts).Pairwise (· < ·) := by
  have apart : (sorted texts).Nodup := (List.mergeSort_perm texts _).nodup_iff.mpr nodup
  refine (sorted_ascending texts).imp₂ ?_ apart
  intro first second bound differ
  by_contra notSmaller
  exact differ (String.le_antisymm bound (String.not_lt.mp notSmaller))

/-- Dropping repetitions from ascending texts: what is kept so far stands in `kept`, the
last one first, and `text` is the one at hand. -/
theorem erase_reps_loop {text : String} {rest kept : List String}
    (ascending : (text :: rest).Pairwise (· ≤ ·))
    (strict : (text :: kept).Pairwise fun later earlier => earlier < later) :
    (List.eraseRepsBy.loop (· == ·) text rest kept).Pairwise (· < ·) ∧
      ∀ other, other ∈ List.eraseRepsBy.loop (· == ·) text rest kept ↔
        other ∈ kept ∨ other ∈ text :: rest := by
  induction rest generalizing text kept with
  | nil =>
      rw [List.eraseRepsBy.loop]
      constructor
      · exact List.pairwise_reverse.mpr strict
      · intro other
        simp only [List.mem_reverse, List.mem_cons, List.not_mem_nil, or_false]
        exact or_comm
  | cons next rest induction =>
      have bounds := List.pairwise_cons.mp ascending
      rw [List.eraseRepsBy.loop]
      split
      · next equal =>
          obtain rfl : text = next := eq_of_beq equal
          obtain ⟨pairs, members⟩ := induction bounds.2 strict
          refine ⟨pairs, fun other => (members other).trans ?_⟩
          simp
      · next differ =>
          have smaller : text < next := by
            by_contra notSmaller
            have equal := String.le_antisymm (bounds.1 next List.mem_cons_self)
              (String.not_lt.mp notSmaller)
            simp [equal] at differ
          have larger : ∀ earlier ∈ text :: kept, earlier < next := by
            intro earlier member
            rcases List.mem_cons.mp member with rfl | before
            · exact smaller
            · exact String.lt_trans ((List.pairwise_cons.mp strict).1 earlier before) smaller
          obtain ⟨pairs, members⟩ :=
            induction bounds.2 (List.pairwise_cons.mpr ⟨larger, strict⟩)
          refine ⟨pairs, fun other => (members other).trans ?_⟩
          simp only [List.mem_cons]
          tauto

theorem erase_reps_ascending {texts : List String} (ascending : texts.Pairwise (· ≤ ·)) :
    texts.eraseReps.Pairwise (· < ·) ∧ ∀ text, text ∈ texts.eraseReps ↔ text ∈ texts := by
  cases texts with
  | nil => simp [List.eraseReps, List.eraseRepsBy]
  | cons text rest =>
      have strict : [text].Pairwise fun later earlier => earlier < later :=
        List.pairwise_singleton _ text
      simpa [List.eraseReps, List.eraseRepsBy] using erase_reps_loop ascending strict

/-! Objects. -/

namespace ObjectNaming

variable (naming : ObjectNaming)

/-- The object of a source depends on the components of its path only. -/
theorem object_congr {first second : Path} (same : first.components = second.components) :
    naming.object first = naming.object second := by
  unfold object Path.fileStem Path.fileName
  rw [same]

/-- Without clashes every source is taken with its object, and no object twice. -/
theorem assign_from_eq {taken : List (Path × String)} {sources : List Path}
    (fine : (naming.assignFrom taken sources).2 = [])
    (distinct : (taken.map Prod.snd).Nodup) :
    (naming.assignFrom taken sources).1 =
        taken ++ sources.map (fun source => (source, naming.object source)) ∧
      (taken.map Prod.snd ++ sources.map naming.object).Nodup := by
  induction sources generalizing taken with
  | nil => simpa [assignFrom] using distinct
  | cons source rest induction =>
      rw [assignFrom] at fine ⊢
      simp only at fine ⊢
      split at fine
      · cases fine
      · next free =>
          have fresh : naming.object source ∉ taken.map Prod.snd := by
            intro member
            obtain ⟨entry, inside, same⟩ := List.mem_map.mp member
            exact List.find?_eq_none.mp free entry inside (by simp [same])
          have next : ((taken ++ [(source, naming.object source)]).map Prod.snd).Nodup := by
            rw [List.map_append, List.map_singleton]
            exact List.nodup_append'.mpr
              ⟨distinct, List.nodup_singleton _, List.disjoint_singleton.mpr fresh⟩
          simpa [free] using induction fine next

theorem assign_eq {sources : List Path} {objects : ObjectMap}
    (assigned : naming.assign sources = .ok objects) :
    objects.entries = sources.map (fun source => (source, naming.object source)) ∧
      (sources.map naming.object).Nodup := by
  unfold assign at assigned
  split at assigned
  · next entries result =>
      cases assigned
      have none : (([] : List (Path × String)).map Prod.snd).Nodup := List.nodup_nil
      have spec := naming.assign_from_eq (congrArg Prod.snd result) none
      rw [result, List.map_nil, List.nil_append, List.nil_append] at spec
      exact spec
  · cases assigned

/-- A source is found by every path with its components. -/
theorem get?_assigned {sources : List Path} {objects : ObjectMap}
    (assigned : naming.assign sources = .ok objects) {source path : Path}
    (member : source ∈ sources) (same : source.components = path.components) :
    objects.get? path = some (naming.object path) := by
  have entries := (naming.assign_eq assigned).1
  unfold ObjectMap.get?
  rw [entries]
  have there : (sources.map (fun source => (source, naming.object source))).find?
      (·.1.same path) ≠ none := by
    intro missing
    rw [List.find?_eq_none] at missing
    exact missing _ (List.mem_map_of_mem member) (Path.same_iff.mpr same)
  obtain ⟨entry, found⟩ := Option.ne_none_iff_exists'.mp there
  have matching : entry.1.components = path.components :=
    Path.same_iff.mp (by simpa using List.find?_some found)
  obtain ⟨other, -, rfl⟩ := List.mem_map.mp (List.mem_of_find?_eq_some found)
  rw [found, Option.map_some, naming.object_congr matching]

theorem get?_assigned_iff {sources : List Path} {objects : ObjectMap}
    (assigned : naming.assign sources = .ok objects) {path : Path} {object : String} :
    objects.get? path = some object ↔
      path.components ∈ sources.map Path.components ∧ naming.object path = object := by
  constructor
  · intro known
    obtain ⟨entry, found, rfl⟩ := Option.map_eq_some_iff.mp known
    have inside := List.mem_of_find?_eq_some found
    rw [(naming.assign_eq assigned).1] at inside
    obtain ⟨source, member, rfl⟩ := List.mem_map.mp inside
    have same := Path.same_iff.mp (by simpa using List.find?_some found)
    exact ⟨List.mem_map.mpr ⟨source, member, same⟩, (naming.object_congr same).symm⟩
  · rintro ⟨member, rfl⟩
    obtain ⟨source, inside, same⟩ := List.mem_map.mp member
    exact naming.get?_assigned assigned inside same

end ObjectNaming

end FortranDeps.Build

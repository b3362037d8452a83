import Mathlib

/-!
# Lists without repetitions

Leaving out repetitions keeps the first of each element. The result has no element
twice, so it is no longer than any list that holds all of them.

The table of names that is written beside a mappings text is such a list: names in
the order of their first use. What is needed of it beyond having no element twice
is how one more element changes it, which carries an induction over the elements
used, and in which order the elements that are left have come up, which no
property of the result alone can tell.
-/

namespace SourceMap

variable {α : Type} [DecidableEq α]

/-- Nothing is left out of a list without repetitions. -/
theorem eraseDups_of_nodup {elements : List α} (distinct : elements.Nodup) :
    elements.eraseDups = elements := by
  induction elements with
  | nil => rfl
  | cons element rest inductionHypothesis =>
    obtain ⟨absent, distinctRest⟩ := List.nodup_cons.mp distinct
    have others : (rest.filter fun other => !other == element) = rest := by
      rw [List.filter_eq_self]
      intro other member
      have different : other ≠ element := fun same => absent (same ▸ member)
      simp [different]
    rw [List.eraseDups_cons, others, inductionHypothesis distinctRest]

/-- No element is left twice. -/
theorem nodup_eraseDups (elements : List α) : elements.eraseDups.Nodup := by
  induction length : elements.length using Nat.strong_induction_on generalizing elements with
  | _ count inductionHypothesis =>
    cases elements with
    | nil => exact List.nodup_nil
    | cons element rest =>
      rw [List.eraseDups_cons, List.nodup_cons]
      constructor
      · intro member
        simpa using List.mem_eraseDups.mp member
      · have shorter : (rest.filter fun other => !other == element).length ≤ rest.length :=
          List.length_filter_le _ rest
        exact inductionHypothesis _ (by simp only [List.length_cons] at length; omega) _ rfl

/-- Repetitions are left out at once. -/
@[simp] theorem eraseDups_idem (elements : List α) :
    elements.eraseDups.eraseDups = elements.eraseDups :=
  eraseDups_of_nodup (nodup_eraseDups elements)

/-- One more element goes to the end, unless it is there already. This is the
step of a list of first uses: an element that has come up before changes
nothing, and no earlier element ever moves. -/
theorem eraseDups_concat (elements : List α) (element : α) :
    (elements ++ [element]).eraseDups =
      if element ∈ elements then elements.eraseDups else elements.eraseDups ++ [element] := by
  rw [List.eraseDups_append]
  by_cases seen : element ∈ elements
  · simp [seen, List.removeAll]
  · simp [seen, List.removeAll, List.eraseDups_cons]

/-- What the elements of a list lead to is left in the order in which it comes
up first. The places compared are places in the whole list, elements that lead
to nothing included.

Proof: by induction on the list from its end. A new element comes up for the
first time at the last place, so behind all others; for the earlier ones neither
the places nor their order change. -/
theorem pairwise_eraseDups_filterMap {β : Type} (lead : β → Option α) (elements : List β) :
    (elements.filterMap lead).eraseDups.Pairwise fun earlier later =>
      (elements.map lead).idxOf (some earlier) < (elements.map lead).idxOf (some later) := by
  -- An element at the end comes up behind all others and leaves their places alone.
  induction elements using List.reverseRecOn with
  | nil => exact .nil
  | append_singleton elements element inductionHypothesis =>
    have cameUp {result : α} (member : result ∈ (elements.filterMap lead).eraseDups) :
        some result ∈ elements.map lead := by
      obtain ⟨source, listed, leads⟩ := List.mem_filterMap.mp (List.mem_eraseDups.mp member)
      exact List.mem_map.mpr ⟨source, listed, leads⟩
    have before : (elements.filterMap lead).eraseDups.Pairwise fun earlier later =>
        ((elements ++ [element]).map lead).idxOf (some earlier) <
          ((elements ++ [element]).map lead).idxOf (some later) := by
      refine inductionHypothesis.imp_of_mem fun {earlier later} earlierMember laterMember less => ?_
      rw [List.map_append, List.idxOf_append_of_mem (cameUp earlierMember),
        List.idxOf_append_of_mem (cameUp laterMember)]
      exact less
    rw [List.filterMap_append]
    cases leads : lead element with
    | none => simpa [leads] using before
    | some result =>
      have single : [element].filterMap lead = [result] := by simp [leads]
      rw [single, eraseDups_concat]
      split
      · exact before
      · rename_i fresh
        refine List.pairwise_append.mpr ⟨before, List.pairwise_singleton _ _, ?_⟩
        intro earlier member later isLast
        obtain rfl := List.mem_singleton.mp isLast
        have absent : some later ∉ elements.map lead := by
          intro inside
          obtain ⟨source, listed, leadsThere⟩ := List.mem_map.mp inside
          exact fresh (List.mem_filterMap.mpr ⟨source, listed, leadsThere⟩)
        rw [List.map_append, List.idxOf_append_of_mem (cameUp member),
          List.idxOf_append_of_notMem absent]
        exact Nat.lt_add_right _ (List.idxOf_lt_length_iff.mpr (cameUp member))

/-- There are no more different elements than there are places in a list that
holds them all. Neither list is assumed to be without repetitions. -/
theorem length_eraseDups_le {elements others : List α}
    (held : ∀ element ∈ elements, element ∈ others) :
    elements.eraseDups.length ≤ others.length := by
  refine (List.subperm_of_subset (nodup_eraseDups elements) ?_).length_le
  intro element member
  exact held element (List.mem_eraseDups.mp member)

end SourceMap

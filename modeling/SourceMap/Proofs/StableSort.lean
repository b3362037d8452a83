import Mathlib

/-!
# Sorting by a key

Sorting by a key keeps elements of one key in the order in which they came. That
and the ascending keys determine the result: two lists with ascending keys are the
same if they agree, key by key, on the elements of that key. So sorting goes
through a selection, and sorting in rounds by one part of the key after the other
comes to the same.

The keys are in a linear order, and elements of one key may differ in everything
else. The characterisation, `eq_sortBy`, is what results on generated lines and
columns use: they never look into the sorting, but show that two lists have
ascending keys and the same elements at each of them.
-/

namespace SourceMap

variable {α β κ μ : Type} [LinearOrder κ] [LinearOrder μ]

/-- The elements of a list in the order of their keys; those of one key stay in
order. -/
def sortBy (key : α → κ) (elements : List α) : List α :=
  elements.mergeSort fun left right => decide (key left ≤ key right)

/-- Sorting neither loses nor adds an element. -/
theorem sortBy_perm (key : α → κ) (elements : List α) : (sortBy key elements).Perm elements :=
  List.mergeSort_perm elements _

/-- Sorting leaves as many elements as there are. -/
@[simp] theorem length_sortBy (key : α → κ) (elements : List α) :
    (sortBy key elements).length = elements.length := (sortBy_perm key elements).length_eq

/-- Sorting leaves exactly the elements that there are. -/
@[simp] theorem mem_sortBy {key : α → κ} {elements : List α} {element : α} :
    element ∈ sortBy key elements ↔ element ∈ elements := (sortBy_perm key elements).mem_iff

/-- Only the empty list becomes the empty list. -/
@[simp] theorem sortBy_eq_nil_iff {key : α → κ} {elements : List α} :
    sortBy key elements = [] ↔ elements = [] := by
  rw [← List.length_eq_zero_iff, length_sortBy, List.length_eq_zero_iff]

/-- After sorting the keys ascend. -/
theorem pairwise_sortBy (key : α → κ) (elements : List α) :
    (sortBy key elements).Pairwise fun left right => key left ≤ key right := by
  have sorted : (sortBy key elements).Pairwise
      fun left right => decide (key left ≤ key right) = true :=
    List.pairwise_mergeSort (by simpa using fun _ _ _ => le_trans)
      (by simpa using fun _ _ => le_total _ _) elements
  simpa using sorted

/-- Sorting keeps the elements of one key in their order. -/
theorem filter_key_sortBy (key : α → κ) (elements : List α) (value : κ) :
    (sortBy key elements).filter (key · = value) = elements.filter (key · = value) := by
  have level : (elements.filter (key · = value)).Pairwise
      fun left right => decide (key left ≤ key right) = true := by
    apply List.pairwise_of_forall_mem_list
    intro left leftMember right rightMember
    have leftKey : key left = value := by simpa using (List.mem_filter.mp leftMember).2
    have rightKey : key right = value := by simpa using (List.mem_filter.mp rightMember).2
    simp [leftKey, rightKey]
  have kept : (elements.filter (key · = value)).Sublist (sortBy key elements) :=
    List.sublist_mergeSort (by simpa using fun _ _ _ => le_trans)
      (by simpa using fun _ _ => le_total _ _) level List.filter_sublist
  have selected := kept.filter (key · = value)
  rw [List.filter_filter] at selected
  simp only [Bool.and_self] at selected
  exact (selected.eq_of_length ((sortBy_perm key elements).filter _).length_eq.symm).symm

/-- Two lists with ascending keys are the same if they agree on the elements of
each key.

Proof: by induction on the first list. Its head has the least key of all; the
other list has an element of that key as well, and since its keys ascend its
head has that key too. The selections for that key begin with the two heads, so
these are equal, and the tails agree as the lists did. -/
theorem eq_of_filter_key_eq {key : α → κ} {left right : List α}
    (leftAscending : left.Pairwise fun first second => key first ≤ key second)
    (rightAscending : right.Pairwise fun first second => key first ≤ key second)
    (agree : ∀ value, left.filter (key · = value) = right.filter (key · = value)) :
    left = right := by
  induction left generalizing right with
  | nil =>
    cases right with
    | nil => rfl
    | cons element rest => simpa using agree (key element)
  | cons element rest inductionHypothesis =>
    cases right with
    | nil => simpa using agree (key element)
    | cons other others =>
      obtain ⟨leftLeast, leftRest⟩ := List.pairwise_cons.mp leftAscending
      obtain ⟨rightLeast, rightRest⟩ := List.pairwise_cons.mp rightAscending
      have there : element ∈ other :: others := by
        have member : element ∈ (element :: rest).filter (key · = key element) := by simp
        exact List.mem_of_mem_filter (agree (key element) ▸ member)
      have here : other ∈ element :: rest := by
        have member : other ∈ (other :: others).filter (key · = key other) := by simp
        exact List.mem_of_mem_filter (agree (key other) ▸ member)
      have below : key other ≤ key element := by
        rcases List.mem_cons.mp there with rfl | later
        · exact le_rfl
        · exact rightLeast element later
      have above : key element ≤ key other := by
        rcases List.mem_cons.mp here with rfl | later
        · exact le_rfl
        · exact leftLeast other later
      have level : key element = key other := le_antisymm above below
      have first := agree (key element)
      simp only [level, List.filter_cons_of_pos, decide_true, List.cons.injEq] at first
      obtain ⟨rfl, _⟩ := first
      refine congrArg (element :: ·) (inductionHypothesis leftRest rightRest fun value => ?_)
      have whole := agree value
      by_cases found : key element = value
      · simpa [List.filter_cons, found] using whole
      · simpa [List.filter_cons, found] using whole

/-- Sorting is the only way to make the keys ascend and keep the elements of
each key in their order. That the elements are the same ones need not be asked
for: every element has a key, so the selections by key already say it. -/
theorem eq_sortBy {key : α → κ} {sorted elements : List α}
    (ascending : sorted.Pairwise fun left right => key left ≤ key right)
    (agree : ∀ value, sorted.filter (key · = value) = elements.filter (key · = value)) :
    sorted = sortBy key elements :=
  eq_of_filter_key_eq ascending (pairwise_sortBy key elements) fun value =>
    (agree value).trans (filter_key_sortBy key elements value).symm

/-- A selection of sorted elements is the sorted selection. The test may look at
more than the key. -/
theorem filter_sortBy (key : α → κ) (test : α → Bool) (elements : List α) :
    (sortBy key elements).filter test = sortBy key (elements.filter test) := by
  apply eq_sortBy ((pairwise_sortBy key elements).filter test)
  intro value
  rw [List.filter_comm, filter_key_sortBy, List.filter_comm]

/-- Sorting a list by one key, then by the key in whose order it was, and by the
first key again comes to the same as sorting it once. -/
theorem sortBy_sortBy_sortBy {first : α → κ} {second : α → μ} {elements : List α}
    (ascending : elements.Pairwise fun left right => first left ≤ first right) :
    sortBy second (sortBy first (sortBy second elements)) = sortBy second elements := by
  apply eq_sortBy (pairwise_sortBy second _)
  intro value
  have there : sortBy first (elements.filter (second · = value)) =
      elements.filter (second · = value) :=
    (eq_sortBy (ascending.filter _) fun _ => rfl).symm
  rw [filter_key_sortBy, filter_sortBy, filter_key_sortBy, there]

/-- A list in the order of two keys, the second one deciding where the first is
the same, is got back by sorting by the first key what was sorted by the second
one. The sort by the second key may mix the first keys in any way; it only has
to keep those of one first key in order, and it does because they were in the
order of the second. -/
theorem sortBy_sortBy_of_pairwise {first : α → κ} {second : α → μ} {elements : List α}
    (ascending : elements.Pairwise fun left right => first left ≤ first right)
    (within : ∀ value, (elements.filter (first · = value)).Pairwise
      fun left right => second left ≤ second right) :
    sortBy first (sortBy second elements) = elements := by
  refine (eq_sortBy ascending fun value => ?_).symm
  rw [filter_sortBy]
  exact eq_sortBy (within value) fun _ => rfl

/-- Sorting by a key that is read off an image is sorting the images. -/
theorem map_sortBy (image : α → β) (key : β → κ) (elements : List α) :
    (sortBy (key ∘ image) elements).map image = sortBy key (elements.map image) :=
  List.map_mergeSort fun _ _ _ _ => rfl

end SourceMap

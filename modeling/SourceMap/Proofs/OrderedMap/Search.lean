import SourceMap.Proofs.OrderedMap.Order

/-!
# The search for a place

The place of a new key is found by halving, and what is found depends on nothing
but the outcomes of comparing the listed keys with the new one. Where those that
do not come after it form an initial part of the list, the place is the end of
that part. A comparison that is a total preorder cuts every sorted list in this
way, so a list that is sorted stays so, and a new key goes behind all keys that
are level with it. Under any other comparison, also one that leaves keys
incomparable, the search ends all the same, after no more rounds than the length
of the list has binary digits, and inside the list or at its end. It is the same
search whether the middle of an interval is exact or calculated in words of 32
bits, as long as the list is shorter than half of what such words can count.
-/

namespace SourceMap.OrderedMap

/-- The place halfway through an interval. -/
def halfway (low high : Nat) : Nat := (low + high) / 2

/-- The place halfway through an interval as words of 32 bits have it: their sum
wraps around, and it is halved by a shift. -/
def wordHalfway (low high : Nat) : Nat := (BitVec.ofNat 32 (low + high) >>> 1).toNat

/-- Search an interval in at most so many rounds, each of which tests one place
and leaves one of the parts on either side of it. There is no result if
something is left after that. -/
def searchRounds (middleOf : Nat → Nat → Nat) (test : Nat → Bool) : Nat → Nat → Nat → Option Nat
  | 0, low, high => if low < high then none else some low
  | rounds + 1, low, high =>
    if low < high then
      if test (middleOf low high) then
        searchRounds middleOf test rounds (middleOf low high + 1) high
      else searchRounds middleOf test rounds low (middleOf low high)
    else some low

/-- Words of 32 bits halve every interval below half of what they can count. -/
theorem wordHalfway_eq {low high : Nat} (nonempty : low < high) (small : high < 2 ^ 31) :
    wordHalfway low high = halfway low high := by
  have fits : low + high < 2 ^ 32 := by omega
  rw [wordHalfway, halfway, BitVec.toNat_ushiftRight, BitVec.toNat_ofNat, Nat.mod_eq_of_lt fits,
    Nat.shiftRight_eq_div_pow, Nat.pow_one]

/-- The search ends as soon as the rounds can halve the interval away, and then
its result does not depend on their number. The middle may be calculated in any
way that is exact below the bound; beyond the bound nothing is said.

Proof: by induction on the rounds. The exact middle splits the interval into
parts of at most half its length, so one round fewer is enough for the part that
is searched next. -/
theorem searchRounds_eq {middleOf : Nat → Nat → Nat} {bound : Nat}
    (exact : ∀ low high, low < high → high ≤ bound → middleOf low high = halfway low high)
    (test : Nat → Bool) {rounds low high : Nat} (inside : high ≤ bound)
    (enough : high - low < 2 ^ rounds) :
    searchRounds middleOf test rounds low high = some (searchBetween test low high) := by
  induction rounds generalizing low high with
  | zero =>
    have empty : ¬low < high := by
      rw [Nat.pow_zero] at enough
      omega
    rw [searchRounds, searchBetween, if_neg empty, if_neg empty]
  | succ rounds inductionHypothesis =>
    rw [searchRounds, searchBetween]
    by_cases nonempty : low < high
    · -- Each part is at most half as long as the interval, so one round less is enough for it.
      have middle := exact low high nonempty inside
      rw [Nat.pow_succ] at enough
      simp only [if_pos nonempty, middle, halfway]
      split
      · exact inductionHypothesis inside (by omega)
      · exact inductionHypothesis (by omega) (by omega)
    · rw [if_neg nonempty, if_neg nonempty]

variable {κ α : Type} {compare : κ → κ → Option Ordering}

/-- Whether the key at a place is known not to come after another one. -/
def precedesAt (compare : κ → κ → Option Ordering) (entries : List (κ × α)) (key : κ)
    (place : Nat) : Bool :=
  (entries[place]?).any fun entry => precedes compare entry.1 key

/-- A comparison that ranks all keys, but may rank different ones alike: of two
keys one is known not to come after the other, and this is transitive. Comparing
keys by some part of them is such a comparison, if the parts are in a total
order. -/
structure TotalPreorder (compare : κ → κ → Option Ordering) : Prop where
  total : ∀ left right, precedes compare left right = true ∨ precedes compare right left = true
  transitive : ∀ first second third, precedes compare first second = true →
    precedes compare second third = true → precedes compare first third = true

/-- Entries none of which comes after a later one. -/
def Sorted (compare : κ → κ → Option Ordering) (entries : List (κ × α)) : Prop :=
  entries.Pairwise fun left right => precedes compare left.1 right.1 = true

/-- A total preorder cuts a sorted list where its keys begin to come after a
key. -/
theorem Sorted.exists_cut (preorder : TotalPreorder compare) {entries : List (κ × α)}
    (sorted : Sorted compare entries) (key : κ) :
    ∃ before after, entries = before ++ after ∧
      (∀ entry ∈ before, precedes compare entry.1 key = true) ∧
      ∀ entry ∈ after, precedes compare entry.1 key = false := by
  induction entries with
  | nil => exact ⟨[], [], rfl, by simp, by simp⟩
  | cons first rest inductionHypothesis =>
    obtain ⟨least, sortedRest⟩ := List.pairwise_cons.mp sorted
    cases comes : precedes compare first.1 key with
    | true =>
      obtain ⟨before, after, split, holds, fails⟩ := inductionHypothesis sortedRest
      refine ⟨first :: before, after, by rw [split, List.cons_append], ?_, fails⟩
      exact List.forall_mem_cons.mpr ⟨comes, holds⟩
    | false =>
      refine ⟨[], first :: rest, rfl, by simp, List.forall_mem_cons.mpr ⟨comes, ?_⟩⟩
      intro other member
      cases further : precedes compare other.1 key with
      | false => rfl
      | true =>
        have back := preorder.transitive first.1 other.1 key (least other member) further
        simp [comes] at back

/-- A key put where a total preorder cuts a sorted list leaves the list sorted. -/
theorem Sorted.insert_between (preorder : TotalPreorder compare) {before after : List (κ × α)}
    (sorted : Sorted compare (before ++ after)) {key : κ} (value : α)
    (holds : ∀ entry ∈ before, precedes compare entry.1 key = true)
    (fails : ∀ entry ∈ after, precedes compare entry.1 key = false) :
    Sorted compare (before ++ (key, value) :: after) := by
  obtain ⟨sortedBefore, sortedAfter, across⟩ := List.pairwise_append.mp sorted
  refine List.pairwise_append.mpr ⟨sortedBefore, List.pairwise_cons.mpr ⟨?_, sortedAfter⟩, ?_⟩
  · intro entry member
    rcases preorder.total key entry.1 with forth | back
    · exact forth
    · simp [fails entry member] at back
  · intro entry member other found
    rcases List.mem_cons.mp found with rfl | further
    · exact holds entry member
    · exact across entry member other further

/-- A total preorder finds a place in a sorted list between the keys that do not
come after a key and those that do. Put in there, the key leaves the list
sorted. -/
theorem Sorted.exists_insertIdx_eq (preorder : TotalPreorder compare) {entries : List (κ × α)}
    (sorted : Sorted compare entries) (key : κ) (value : α) :
    ∃ before after, entries = before ++ after ∧
      entries.insertIdx (insertionPoint compare entries key) (key, value) =
        before ++ (key, value) :: after ∧
      (∀ entry ∈ before, precedes compare entry.1 key = true) ∧
      (∀ entry ∈ after, precedes compare entry.1 key = false) ∧
      Sorted compare (before ++ (key, value) :: after) := by
  obtain ⟨before, after, rfl, holds, fails⟩ := sorted.exists_cut preorder key
  refine ⟨before, after, rfl, ?_, holds, fails, sorted.insert_between preorder value holds fails⟩
  rw [insertionPoint_append holds fails, Entries.insertIdx_length_append]

/-- The search for the place of a key, for all comparisons and lists. If the
listed keys that do not come after the key are the initial part of the list, it
finds the end of that part. So in a list that is sorted by a total preorder the
key is put behind all keys that are level with it, and the list stays sorted.
Whatever the comparison does, the place is in the list or at its end, and as
many rounds as the length has binary digits are enough to find it; this also
holds of the search with words of 32 bits, for lists of fewer than `2 ^ 31`
entries. -/
theorem insertionPoint_partitions (compare : κ → κ → Option Ordering) (entries : List (κ × α))
    (key : κ) :
    (∀ before after, entries = before ++ after →
      (∀ entry ∈ before, precedes compare entry.1 key = true) →
      (∀ entry ∈ after, precedes compare entry.1 key = false) →
      insertionPoint compare entries key = before.length) ∧
    (TotalPreorder compare → Sorted compare entries → ∀ value, ∃ before after,
      entries = before ++ after ∧
      entries.insertIdx (insertionPoint compare entries key) (key, value) =
        before ++ (key, value) :: after ∧
      (∀ entry ∈ before, precedes compare entry.1 key = true) ∧
      (∀ entry ∈ after, precedes compare entry.1 key = false) ∧
      Sorted compare (before ++ (key, value) :: after)) ∧
    insertionPoint compare entries key ≤ entries.length ∧
    ∀ rounds, entries.length < 2 ^ rounds →
      searchRounds halfway (precedesAt compare entries key) rounds 0 entries.length =
        some (insertionPoint compare entries key) ∧
      (entries.length < 2 ^ 31 →
        searchRounds wordHalfway (precedesAt compare entries key) rounds 0 entries.length =
          some (insertionPoint compare entries key)) := by
  refine ⟨?_, fun preorder sorted => sorted.exists_insertIdx_eq preorder key,
    insertionPoint_le entries key, fun rounds enough => ⟨?_, fun small => ?_⟩⟩
  · rintro before after rfl holds fails
    exact insertionPoint_append holds fails
  · exact searchRounds_eq (fun _ _ _ _ => rfl) _ (Nat.le_refl _) enough
  · have words (low high : Nat) (nonempty : low < high) (inside : high ≤ entries.length) :
        wordHalfway low high = halfway low high :=
      wordHalfway_eq nonempty (inside.trans_lt small)
    exact searchRounds_eq words _ (Nat.le_refl _) enough

/-- Numbers compared by tens: a key goes behind two that it is level with. Three
rounds of words are enough for four entries. -/
theorem insertionPoint_partitions_tens :
    let compare (left right : Nat) := some (Ord.compare (left / 10) (right / 10))
    let before := [(3, "a"), (17, "b"), (12, "c")]
    let after := [(25, "d")]
    insertionPoint compare (before ++ after) 14 = 3 ∧ TotalPreorder compare ∧
      Sorted compare (before ++ after) ∧
      (∃ start rest, before ++ after = start ++ rest ∧
        (before ++ after).insertIdx 3 (14, "e") = start ++ (14, "e") :: rest ∧
        Sorted compare (start ++ (14, "e") :: rest)) ∧
      searchRounds halfway (precedesAt compare (before ++ after) 14) 3 0 4 = some 3 ∧
      searchRounds wordHalfway (precedesAt compare (before ++ after) 14) 3 0 4 = some 3 := by
  intro compare before after
  have isLE (left right : Nat) : precedes compare left right = true ↔ left / 10 ≤ right / 10 := by
    simp [precedes, compare, Nat.isLE_compare]
  have preorder : TotalPreorder compare :=
    { total := fun left right => by
        rw [isLE, isLE]
        exact Nat.le_total _ _
      transitive := fun first second third => by
        rw [isLE, isLE, isLE]
        exact Nat.le_trans }
  have sorted : Sorted compare (before ++ after) := by
    unfold Sorted
    decide
  obtain ⟨finds, puts, _, ends⟩ := insertionPoint_partitions compare (before ++ after) 14
  have place : insertionPoint compare (before ++ after) 14 = 3 :=
    finds before after rfl (by decide) (by decide)
  obtain ⟨exact, words⟩ := ends 3 (by decide)
  obtain ⟨start, rest, split, spliced, _, _, stays⟩ := puts preorder sorted "e"
  rw [place] at exact words spliced
  exact ⟨place, preorder, sorted, ⟨start, rest, split, spliced, stays⟩, exact, words (by decide)⟩

end SourceMap.OrderedMap

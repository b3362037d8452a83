import SourceMap.OriginIndex.Order
import SourceMap.Proofs.OrderedMap.Order
import SourceMap.Proofs.Text.UnitOrder

/-!
# The strict order of sources

The comparison of sources by a list puts all texts in a strict order, whatever the
list holds and however often it repeats an entry. The list without its repetitions
is in that order itself. Stated without the comparison: a source comes before
another one if the list mentions it before any mention of the other, or mentions
neither and its code units are less.

The argument is made once, for sources with names under either kind of keys. For
plain names the condition is void. For optional names it is needed: the missing
source, where the list does not mention it, is level with every other source that
the list does not mention, so the comparison tells these apart from each other and
not from it, and transitivity of being level fails.
-/

namespace SourceMap

/-- Two entries at one place of a list are the same. -/
theorem eq_of_idxOf?_eq {σ : Type} [DecidableEq σ] {order : List σ} {left right : σ} {place : Nat}
    (first : order.idxOf? left = some place) (second : order.idxOf? right = some place) :
    left = right := by
  obtain ⟨_, foundLeft, _⟩ := List.idxOf?_eq_some_iff.mp first
  obtain ⟨_, foundRight, _⟩ := List.idxOf?_eq_some_iff.mp second
  exact foundLeft.symm.trans foundRight

/-- Two sources with names compare by them. -/
theorem SourceKey.Named.exists_compareNames_eq {σ : Type} [SourceKey σ] {left right : σ}
    (leftNamed : Named left) (rightNamed : Named right) :
    ∃ first second, name? left = some first ∧ name? right = some second ∧
      compareNames left right = Units.compare first second := by
  obtain ⟨first, isFirst⟩ := Option.isSome_iff_exists.mp leftNamed
  obtain ⟨second, isSecond⟩ := Option.isSome_iff_exists.mp rightNamed
  exact ⟨first, second, isFirst, isSecond, by simp [compareNames, isFirst, isSecond]⟩

section Named

variable {σ : Type} [DecidableEq σ] [SourceKey σ] [LawfulSourceKey σ]

/-- Of two different sources with names one comes first, seen from either side.

Proof: if the list mentions both, their first places differ and decide; if it
mentions one of them, that one comes first; if it mentions neither, their names
differ and the order of texts by code unit decides. -/
theorem SourceKey.Named.compareSources_connected (order : List σ) {left right : σ}
    (leftNamed : Named left) (rightNamed : Named right) (different : left ≠ right) :
    (compareSources order left right = some .lt ∧
        compareSources order right left = some .gt) ∨
      (compareSources order left right = some .gt ∧
        compareSources order right left = some .lt) := by
  unfold compareSources
  cases first : order.idxOf? left with
  | some leftPlace =>
    cases second : order.idxOf? right with
    | none => exact Or.inl ⟨rfl, rfl⟩
    | some rightPlace =>
      have apart : leftPlace ≠ rightPlace := by
        rintro rfl
        exact different (eq_of_idxOf?_eq first second)
      rcases Nat.lt_or_gt_of_ne apart with less | greater
      · exact Or.inl ⟨congrArg some (Nat.compare_eq_lt.mpr less),
          congrArg some (Nat.compare_eq_gt.mpr less)⟩
      · exact Or.inr ⟨congrArg some (Nat.compare_eq_gt.mpr greater),
          congrArg some (Nat.compare_eq_lt.mpr greater)⟩
  | none =>
    cases second : order.idxOf? right with
    | some rightPlace => exact Or.inr ⟨rfl, rfl⟩
    | none =>
      obtain ⟨low, high, isLow, isHigh, forth⟩ := leftNamed.exists_compareNames_eq rightNamed
      obtain ⟨_, _, isHigh', isLow', back⟩ := rightNamed.exists_compareNames_eq leftNamed
      obtain rfl := Option.some.inj (isLow.symm.trans isLow')
      obtain rfl := Option.some.inj (isHigh.symm.trans isHigh')
      have swapped := Units.compare_swap low high
      simp only [forth, back]
      cases found : Units.compare low high with
      | eq =>
        rw [← Units.compare_eq_eq.mp found] at isHigh
        exact absurd (LawfulSourceKey.eq_of_name? isLow isHigh) different
      | lt =>
        rw [found] at swapped
        exact Or.inl ⟨rfl, congrArg some swapped.symm⟩
      | gt =>
        rw [found] at swapped
        exact Or.inr ⟨rfl, congrArg some swapped.symm⟩

omit [LawfulSourceKey σ] in
/-- Of sources with names, one before a second that is before a third comes
before the third. The cases are those of which of the three the list mentions;
where a later source is mentioned and an earlier one is not, one of the two
premises is false. -/
theorem SourceKey.Named.compareSources_transitive (order : List σ) {first second third : σ}
    (firstNamed : Named first) (secondNamed : Named second) (thirdNamed : Named third)
    (before : compareSources order first second = some .lt)
    (after : compareSources order second third = some .lt) :
    compareSources order first third = some .lt := by
  unfold compareSources at before after ⊢
  cases firstPlace : order.idxOf? first with
  | some low =>
    cases thirdPlace : order.idxOf? third with
    | none => rfl
    | some high =>
      cases secondPlace : order.idxOf? second with
      | none => simp [secondPlace, thirdPlace] at after
      | some middle =>
        simp only [firstPlace, secondPlace, Option.some.injEq, Nat.compare_eq_lt] at before
        simp only [secondPlace, thirdPlace, Option.some.injEq, Nat.compare_eq_lt] at after
        simpa [Nat.compare_eq_lt] using before.trans after
  | none =>
    cases secondPlace : order.idxOf? second with
    | some middle => simp [firstPlace, secondPlace] at before
    | none =>
      cases thirdPlace : order.idxOf? third with
      | some high => simp [secondPlace, thirdPlace] at after
      | none =>
        obtain ⟨low, middle, isLow, isMiddle, less⟩ := firstNamed.exists_compareNames_eq secondNamed
        obtain ⟨_, high, isMiddle', isHigh, greater⟩ :=
          secondNamed.exists_compareNames_eq thirdNamed
        obtain rfl := Option.some.inj (isMiddle.symm.trans isMiddle')
        simp only [firstPlace, secondPlace, Option.some.injEq, less] at before
        simp only [secondPlace, thirdPlace, Option.some.injEq, greater] at after
        simp [SourceKey.compareNames, isLow, isHigh, Units.compare_transitive before after]

/-- The comparison by a list puts all sources with names in a strict order. -/
theorem compareSources_strictOrder_named (order : List σ) :
    OrderedMap.StrictOrder (compareSources order) SourceKey.Named where
  connected := fun _ _ leftNamed rightNamed different =>
    leftNamed.compareSources_connected order rightNamed different
  transitive := fun _ _ _ firstNamed secondNamed thirdNamed _ _ before after =>
    firstNamed.compareSources_transitive order secondNamed thirdNamed before after

end Named

/-- Of two different sources one comes first, seen from either side. -/
theorem compareSources_connected (order : List String) {left right : String}
    (different : left ≠ right) :
    (compareSources order left right = some .lt ∧
        compareSources order right left = some .gt) ∨
      (compareSources order left right = some .gt ∧
        compareSources order right left = some .lt) :=
  SourceKey.Named.compareSources_connected order rfl rfl different

/-- A source is level with itself. -/
theorem compareSources_self (order : List String) (source : String) :
    compareSources order source source = some .eq := by
  cases place : order.idxOf? source with
  | some rank => simp [compareSources, place]
  | none => simp [compareSources, place, Units.compare_eq_eq]

/-- A source that the list mentions comes before one that it does not. -/
theorem compareSources_of_mem_of_not_mem {order : List String} {left right : String}
    (mentioned : left ∈ order) (other : right ∉ order) :
    compareSources order left right = some .lt := by
  obtain ⟨place, found⟩ := Option.isSome_iff_exists.mp (List.isSome_idxOf?.mpr mentioned)
  rw [compareSources, found, List.idxOf?_eq_none_iff.mpr other]

/-- Two sources that the list does not mention compare by code unit. -/
theorem compareSources_of_not_mem {order : List String} {left right : String}
    (leftOther : left ∉ order) (rightOther : right ∉ order) :
    compareSources order left right = some (Units.compare left right) := by
  rw [compareSources, List.idxOf?_eq_none_iff.mpr leftOther, List.idxOf?_eq_none_iff.mpr rightOther]
  rfl

/-- A source before one that is before a third comes before the third. -/
theorem compareSources_transitive (order : List String) {first second third : String}
    (before : compareSources order first second = some .lt)
    (after : compareSources order second third = some .lt) :
    compareSources order first third = some .lt :=
  SourceKey.Named.compareSources_transitive order rfl rfl rfl before after

/-- The comparison by a list puts all sources in a strict order. -/
theorem compareSources_strictOrder (order : List String) :
    OrderedMap.StrictOrder (compareSources order) fun _ => True where
  connected := fun _ _ _ _ different => compareSources_connected order different
  transitive := fun _ _ _ _ _ _ _ _ before after => compareSources_transitive order before after

/-- A source that the list names before its first mention of another one comes
before it. -/
theorem compareSources_of_mem_prefix {before after : List String} {left right : String}
    (member : left ∈ before) (absent : right ∉ before) :
    compareSources (before ++ right :: after) left right = some .lt := by
  obtain ⟨place, found⟩ := Option.isSome_iff_exists.mp (List.isSome_idxOf?.mpr member)
  have bounded : place < before.length := (List.idxOf?_eq_some_iff.mp found).1
  have leftPlace : (before ++ right :: after).idxOf? left = some place := by
    rw [List.idxOf?_eq_some_iff] at found ⊢
    obtain ⟨inside, here, first⟩ := found
    refine ⟨by simp; omega, by rw [List.getElem_append_left inside]; exact here, ?_⟩
    intro earlier less
    rw [List.getElem_append_left (less.trans inside)]
    exact first earlier less
  have rightPlace : (before ++ right :: after).idxOf? right = some before.length := by
    rw [List.idxOf?_eq_some_iff]
    refine ⟨by simp, by simp, ?_⟩
    intro earlier less
    rw [List.getElem_append_left less]
    intro same
    have equal : before[earlier] = right := by simpa using same
    exact absent (equal ▸ List.getElem_mem less)
  simp [compareSources, leftPlace, rightPlace, Nat.compare_eq_lt, bounded]

/-- Whether a list ranks a source before another one: it mentions the source
before any mention of the other one, or it mentions neither of them and the code
units of the source come first. The mention that is split off need not be the
first one of the source; that no mention of the other is before it is all that
counts. -/
inductive RanksBefore (order : List String) (left right : String) : Prop
  | mentioned {before after : List String} (split : order = before ++ left :: after)
      (notBefore : right ∉ before) (different : left ≠ right) : RanksBefore order left right
  | unmentioned (leftOther : left ∉ order) (rightOther : right ∉ order)
      (less : Units.ofChars left.toList < Units.ofChars right.toList) : RanksBefore order left right

/-- Of two different sources a list ranks one before the other. -/
theorem ranksBefore_total (order : List String) {left right : String} (different : left ≠ right) :
    RanksBefore order left right ∨ RanksBefore order right left := by
  by_cases leftMentioned : left ∈ order
  · obtain ⟨before, after, split, leftNotBefore⟩ := List.eq_append_cons_of_mem leftMentioned
    by_cases rightBefore : right ∈ before
    · obtain ⟨start, rest, further, _⟩ := List.eq_append_cons_of_mem rightBefore
      rw [further, List.mem_append, not_or] at leftNotBefore
      have whole : order = start ++ right :: (rest ++ left :: after) := by
        rw [split, further, List.append_assoc, List.cons_append]
      exact Or.inr (.mentioned whole leftNotBefore.1 different.symm)
    · exact Or.inl (.mentioned split rightBefore different)
  · by_cases rightMentioned : right ∈ order
    · obtain ⟨before, after, split, _⟩ := List.eq_append_cons_of_mem rightMentioned
      rw [split, List.mem_append, not_or] at leftMentioned
      exact Or.inr (.mentioned split leftMentioned.1 different.symm)
    · have apart : Units.ofChars left.toList ≠ Units.ofChars right.toList := fun same =>
        different (String.toList_inj.mp (Units.ofChars_injective same))
      rcases lt_or_gt_of_ne apart with less | greater
      · exact Or.inl (.unmentioned leftMentioned rightMentioned less)
      · exact Or.inr (.unmentioned rightMentioned leftMentioned greater)

/-- A source that a list ranks before another one compares as before it. -/
theorem RanksBefore.compareSources_eq {order : List String} {left right : String}
    (ranks : RanksBefore order left right) : compareSources order left right = some .lt := by
  cases ranks with
  | @mentioned before after split notBefore different =>
    by_cases further : right ∈ after
    · obtain ⟨between, rest, again, notBetween⟩ := List.eq_append_cons_of_mem further
      have absent : right ∉ before ++ left :: between := by
        simp [notBefore, different.symm, notBetween]
      have whole : order = (before ++ left :: between) ++ right :: rest := by
        rw [split, again, List.append_assoc, List.cons_append]
      rw [whole]
      exact compareSources_of_mem_prefix (by simp) absent
    · apply compareSources_of_mem_of_not_mem <;> simp [split, notBefore, different.symm, further]
  | unmentioned leftOther rightOther less =>
    rw [compareSources_of_not_mem leftOther rightOther, Units.compare_eq_lt.mpr less]

/-- Sources are level only with themselves. -/
theorem compareSources_eq_eq_iff (order : List String) {left right : String} :
    compareSources order left right = some .eq ↔ left = right := by
  constructor
  · intro level
    by_contra different
    rcases compareSources_connected order different with ⟨less, _⟩ | ⟨greater, _⟩
    · simp [level] at less
    · simp [level] at greater
  · rintro rfl
    exact compareSources_self order left

/-- One source comes before another one exactly if that one comes after it. -/
theorem compareSources_lt_iff_gt (order : List String) {left right : String} :
    compareSources order left right = some .lt ↔ compareSources order right left = some .gt := by
  by_cases same : left = right
  · simp [same, compareSources_self]
  · rcases compareSources_connected order same with ⟨less, back⟩ | ⟨greater, back⟩
    · simp [less, back]
    · simp [greater, back]

/-- Sources compare as before each other exactly as a list ranks them. -/
theorem compareSources_lt_iff (order : List String) {left right : String} :
    compareSources order left right = some .lt ↔ RanksBefore order left right := by
  refine ⟨fun less => ?_, RanksBefore.compareSources_eq⟩
  have different : left ≠ right := by
    rintro rfl
    simp [compareSources_self] at less
  rcases ranksBefore_total order different with ranks | back
  · exact ranks
  · have greater := (compareSources_lt_iff_gt order).mp back.compareSources_eq
    simp [less] at greater

/-- Under every list, also one that repeats its entries, the comparison is a
strict total order of all sources. It is the one in which the list ranks them: a
source is level only with itself, it comes before another one exactly if that
one comes after it, of two different ones one comes first, and what comes before
a source that comes before a third comes before the third.

Nothing is assumed about the list or the sources. The sources are names here;
see the head of this module for keys without one. -/
theorem compareSources_strictTotalOrder (order : List String) :
    (∀ left right, compareSources order left right = some .lt ↔ RanksBefore order left right) ∧
      (∀ left right, compareSources order left right = some .eq ↔ left = right) ∧
      (∀ left right, compareSources order left right = some .lt ↔
        compareSources order right left = some .gt) ∧
      (∀ left right, left ≠ right → compareSources order left right = some .lt ∨
        compareSources order right left = some .lt) ∧
      ∀ first second third, compareSources order first second = some .lt →
        compareSources order second third = some .lt →
        compareSources order first third = some .lt := by
  refine ⟨fun _ _ => compareSources_lt_iff order, fun _ _ => compareSources_eq_eq_iff order,
    fun _ _ => compareSources_lt_iff_gt order, ?_, fun _ _ _ => compareSources_transitive order⟩
  intro left right different
  exact (ranksBefore_total order different).imp RanksBefore.compareSources_eq
    RanksBefore.compareSources_eq

/-- Under a list that repeats an entry: a mentioned source, one beyond the basic
plane and one that sorts behind its surrogates are in ascending order. The
repeated entry counts where it is mentioned first. -/
theorem compareSources_strictTotalOrder_repeated :
    let order := ["b", "a", "b"]
    (compareSources order "a" "😀" = some .lt ∧ compareSources order "😀" "｡" = some .lt ∧
      compareSources order "a" "｡" = some .lt) ∧
      (RanksBefore order "b" "a" ∧ RanksBefore order "😀" "｡") ∧
      (compareSources order "b" "｡" = some .lt ∨ compareSources order "｡" "b" = some .lt) := by
  intro order
  obtain ⟨ranks, _, _, total, transitive⟩ := compareSources_strictTotalOrder order
  have first : compareSources order "a" "😀" = some .lt := by decide +kernel
  have second : compareSources order "😀" "｡" = some .lt := by decide +kernel
  refine ⟨⟨first, second, transitive _ _ _ first second⟩, ⟨?_, (ranks _ _).mp second⟩,
    total _ _ (by decide)⟩
  exact (ranks _ _).mp (by decide +kernel)

end SourceMap

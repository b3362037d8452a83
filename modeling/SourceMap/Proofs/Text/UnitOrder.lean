import Mathlib
import SourceMap.Text.Units

/-!
# The order of texts by code unit

The code units of a text determine it: a unit below the surrogates or above them
is a character by itself, and a surrogate pair spells one beyond the basic plane.
So the lexicographic order of units tells any two texts apart and is a total order
of texts, and different texts can be sorted by it.

It is not the order of characters: those beyond the basic plane start with a
surrogate and so come before the characters from U+E000 on. Sources that are not
listed are ranked by it. Strings with half of a surrogate pair on its own are no
texts here, so nothing is said of them.
-/

namespace SourceMap.Units

/-- A character is no surrogate, and its code is within the Unicode range. -/
theorem toNat_bounds (char : Char) :
    char.toNat < 0xD800 ∨ 0xDFFF < char.toNat ∧ char.toNat < 0x110000 := char.valid

/-- The code units of texts that begin alike agree in the first character.

Proof: the first unit says whether one or two units belong to the character,
since no character has the code of a surrogate; and from one unit, or from two,
the code is calculated back. -/
theorem ofChar_append_inj {first second : Char} {left right : List Nat}
    (same : ofChar first ++ left = ofChar second ++ right) : first = second ∧ left = right := by
  have firstBounds := toNat_bounds first
  have secondBounds := toNat_bounds second
  rw [← Char.toNat_inj]
  simp only [ofChar] at same
  by_cases firstBasic : first.toNat < 0x10000
  · by_cases secondBasic : second.toNat < 0x10000
    · simpa [firstBasic, secondBasic] using same
    · simp only [firstBasic, secondBasic, if_true, if_false, List.cons_append, List.nil_append,
        List.cons.injEq] at same
      omega
  · by_cases secondBasic : second.toNat < 0x10000
    · simp only [firstBasic, secondBasic, if_true, if_false, List.cons_append, List.nil_append,
        List.cons.injEq] at same
      omega
    · simp only [firstBasic, secondBasic, if_false, List.cons_append, List.nil_append,
        List.cons.injEq] at same
      obtain ⟨high, low, rest⟩ := same
      exact ⟨by omega, rest⟩

/-- Different texts have different code units. -/
theorem ofChars_injective : Function.Injective ofChars := by
  intro left
  induction left with
  | nil =>
    intro right same
    cases right with
    | nil => rfl
    | cons second rest =>
      have units : [] = ofChar second ++ ofChars rest := same
      by_cases basic : second.toNat < 0x10000 <;> simp [ofChar, basic] at units
  | cons first tail inductionHypothesis =>
    intro right same
    cases right with
    | nil =>
      have units : ofChar first ++ ofChars tail = [] := same
      by_cases basic : first.toNat < 0x10000 <;> simp [ofChar, basic] at units
    | cons second rest =>
      obtain ⟨rfl, further⟩ := ofChar_append_inj (same : ofChar first ++ ofChars tail = _)
      rw [inductionHypothesis further]

/-- Texts compare as equal only if they are. -/
theorem compare_eq_eq {left right : String} : compare left right = .eq ↔ left = right := by
  rw [compare, Std.LawfulEqCmp.compare_eq_iff_eq, ofChars_injective.eq_iff, String.toList_inj]

/-- The comparison seen from the other side. -/
theorem compare_swap (left right : String) : (compare left right).swap = compare right left := by
  unfold compare
  exact Std.OrientedCmp.eq_swap.symm

/-- A text before one that is before a third comes before the third. -/
theorem compare_transitive {first second third : String}
    (before : compare first second = .lt) (after : compare second third = .lt) :
    compare first third = .lt := by
  unfold compare at before after ⊢
  exact Std.TransCmp.lt_trans before after

/-- Lists of code units compare in their lexicographic order. -/
theorem compareLex_eq_lt {left right : List Nat} :
    List.compareLex Ord.compare left right = .lt ↔ left < right := by
  induction left generalizing right with
  | nil => cases right <;> simp [List.compareLex_nil_cons, List.compareLex_nil_nil]
  | cons first rest inductionHypothesis =>
    cases right with
    | nil => simp [List.compareLex_cons_nil]
    | cons second others =>
      rw [List.compareLex_cons_cons, Ordering.then_eq_lt, inductionHypothesis, Nat.compare_eq_lt,
        Nat.compare_eq_eq, List.cons_lt_cons_iff]

/-- A text comes before another one if its list of code units does. -/
theorem compare_eq_lt {left right : String} :
    compare left right = .lt ↔ ofChars left.toList < ofChars right.toList := by
  rw [compare, compareLex_eq_lt]

/-- Whether the code units of a text do not come after those of another one. -/
def ascends (left right : String) : Bool :=
  decide (ofChars left.toList ≤ ofChars right.toList)

/-- Different texts sorted by code unit are in ascending order. -/
theorem pairwise_mergeSort_ascends {texts : List String} (distinct : texts.Nodup) :
    (texts.mergeSort ascends).Pairwise fun left right => compare left right = .lt := by
  have ascending :
      (texts.mergeSort ascends).Pairwise fun left right => ascends left right = true := by
    apply List.pairwise_mergeSort
    · intro first second third before after
      exact decide_eq_true (le_trans (of_decide_eq_true before) (of_decide_eq_true after))
    · intro first second
      simpa [ascends] using le_total (ofChars first.toList) (ofChars second.toList)
  have distinctSorted : (texts.mergeSort ascends).Nodup :=
    (List.mergeSort_perm texts ascends).nodup_iff.mpr distinct
  refine (ascending.and distinctSorted).imp fun {left right} both => ?_
  have apart : ofChars left.toList ≠ ofChars right.toList := fun same =>
    both.2 (String.toList_inj.mp (ofChars_injective same))
  exact compare_eq_lt.mpr (lt_of_le_of_ne (of_decide_eq_true both.1) apart)

end SourceMap.Units

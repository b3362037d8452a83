import SourceMap.Proofs.Number.Whole

/-!
# Totals that stand still

A running total of steps that can be written grows without end on paper, but not
in double precision. Once the neighbours of a total are more than twice as far
away as the longest step reaches, each sum is rounded back to the total. So a
total that starts at zero and never is negative is a natural number below a fixed
bound, and in particular finite.

This is why an infinite coordinate is never read from a text whose values are all
defined, however long the text is. The bound is far above every coordinate that
can be written; that totals between the two are exact is not claimed, and they are
not.
-/

namespace SourceMap
namespace Number

/-- Where running totals stand still: the distance to the next number is `2 ^
53` there. -/
def standstill : Nat := 2 ^ 105

/-- Whether a number is a natural number up to where running totals stand still. -/
def IsReached (number : Number) : Prop := ∃ total ≤ standstill, number = .ofNat total

/-- Totals stand still long before they would be infinite. -/
theorem standstill_lt : (standstill : Rat) < 2 ^ (1024 : Int) := by
  have less : (2 : Rat) ^ 105 < 2 ^ 1024 := pow_lt_pow_right₀ (by norm_num) (by norm_num)
  calc (standstill : Rat) = 2 ^ 105 := by norm_num [standstill]
    _ < 2 ^ 1024 := less
    _ = 2 ^ (1024 : Int) := (zpow_natCast 2 1024).symm

/-- Zero is reached. -/
theorem isReached_zero : IsReached 0 := ⟨0, Nat.zero_le _, rfl⟩

/-- The nearest integer is at most half of one away. -/
theorem abs_nearestEven_sub_le (value : Rat) : |(nearestEven value : Rat) - value| ≤ 1 / 2 := by
  have below : (value.floor : Rat) ≤ value := Int.floor_le value
  have above : value < value.floor + 1 := Int.lt_floor_add_one value
  rw [abs_le]
  rcases lt_trichotomy (value - value.floor) (1 / 2) with less | half | more
  · have order := compareOfLessAndEq_eq_lt.mpr less
    simp only [nearestEven, order]
    constructor <;> linarith
  · have order : compareOfLessAndEq (value - value.floor) (1 / 2) = .eq := by
      simp [compareOfLessAndEq, half]
    simp only [nearestEven, order]
    split <;> push_cast <;> constructor <;> linarith
  · have order := (compareOfLessAndEq_eq_gt le_antisymm le_total not_le _ _).mpr more
    simp only [nearestEven, order]
    push_cast
    constructor <;> linarith

/-- What is not negative and less than half of one past an integer is rounded
into that range. -/
theorem nearestEven_mem {value : Rat} {bound : Int} (nonnegative : 0 ≤ value)
    (below : value < bound + 1 / 2) : 0 ≤ nearestEven value ∧ nearestEven value ≤ bound := by
  obtain ⟨lower, upper⟩ := abs_le.mp (abs_nearestEven_sub_le value)
  have above : ((-1 : Int) : Rat) < nearestEven value := by
    push_cast
    linarith
  have less : (nearestEven value : Rat) < (bound + 1 : Int) := by
    push_cast
    linarith
  exact ⟨by exact_mod_cast above, Int.lt_add_one_iff.mp (by exact_mod_cast less)⟩

/-- A step beyond where totals stand still is less than half of the way to the
next number. -/
theorem two_mul_lt_of_le {magnitude : Nat} (positive : magnitude ≠ 0)
    (upper : magnitude ≤ standstill + Coordinate.greatest) :
    magnitude.log2 ≤ 105 ∧ 2 * magnitude < 2 * standstill + 2 ^ (magnitude.log2 - 52) := by
  rw [Coordinate.greatest_eq] at upper
  unfold standstill at upper ⊢
  have small : magnitude.log2 < 106 := (Nat.log2_lt positive).mpr (by omega)
  refine ⟨by omega, ?_⟩
  by_cases far : magnitude.log2 < 105
  · have less : magnitude < 2 ^ 105 := (Nat.log2_lt positive).mp far
    have space : 0 < 2 ^ (magnitude.log2 - 52) := by positivity
    omega
  · obtain same : magnitude.log2 = 105 := by omega
    rw [same]
    omega

/-- In units of its last place such a magnitude is rounded to at most the units
up to where totals stand still. -/
theorem nearestEven_div_mem {magnitude places : Nat} (few : places ≤ 105)
    (near : 2 * magnitude < 2 * standstill + 2 ^ places) :
    0 ≤ nearestEven ((magnitude : Rat) / (2 ^ places : Int)) ∧
      nearestEven ((magnitude : Rat) / (2 ^ places : Int)) * 2 ^ places ≤ (standstill : Int) := by
  have whole : (standstill : Int) = 2 ^ (105 - places) * 2 ^ places := by
    rw [← pow_add, Nat.sub_add_cancel few]
    norm_num [standstill]
  have unitPositive : (0 : Rat) < (2 ^ places : Int) := by positivity
  have scaled : (magnitude : Rat) / (2 ^ places : Int) < (2 ^ (105 - places) : Int) + 1 / 2 := by
    have nearRat : 2 * (magnitude : Rat) < 2 * (standstill : Int) + (2 ^ places : Int) := by
      exact_mod_cast near
    rw [whole] at nearRat
    rw [div_lt_iff₀ unitPositive]
    push_cast at nearRat ⊢
    linarith
  obtain ⟨nonnegative, bounded⟩ := nearestEven_mem (by positivity) scaled
  refine ⟨nonnegative, ?_⟩
  rw [whole]
  exact mul_le_mul_of_nonneg_right bounded (by positivity)

/-- Rounding does not lead past where totals stand still. The value is at most
one step beyond it, and not far below zero.

Proof: within the exact bound rounding changes nothing. Beyond it the value is
rounded to a multiple of its last place, and in units of that place it is less
than half a unit past the bound. -/
theorem exists_round_eq {value : Int} (lower : -(exactBound : Int) ≤ value)
    (upper : value ≤ standstill + Coordinate.greatest) :
    ∃ total : Int, total ≤ standstill ∧ round value = ofInt total := by
  by_cases exact : value.natAbs ≤ exactBound
  · refine ⟨value, ?_, round_intCast exact⟩
    unfold standstill
    unfold exactBound at exact
    omega
  obtain ⟨magnitude, rfl⟩ := Int.eq_ofNat_of_zero_le (show 0 ≤ value by omega)
  have beyond : exactBound < magnitude := by simpa using exact
  obtain ⟨few, near⟩ := two_mul_lt_of_le (Nat.ne_zero_of_lt beyond) (by exact_mod_cast upper)
  obtain ⟨nonnegative, bounded⟩ := nearestEven_div_mem (by omega) near
  have general : ¬(((magnitude : Int) : Rat).den = 1 ∧
      ((magnitude : Int) : Rat).num.natAbs ≤ exactBound) := by simpa using beyond
  have magnitudeIs : (magnitude : Rat).abs = magnitude := Rat.abs_of_nonneg (by positivity)
  rw [round, if_neg general]
  simp only [Int.cast_natCast, magnitudeIs, lastPlace_natCast beyond]
  generalize magnitude.log2 - 52 = places at *
  generalize nearestEven ((magnitude : Rat) / (2 ^ places : Int)) = units at *
  have boundedRat : (units : Rat) * (2 ^ places : Int) ≤ standstill := by exact_mod_cast bounded
  have positive : (0 : Rat) ≤ (units : Rat) * (2 ^ places : Int) := by
    exact_mod_cast mul_nonneg nonnegative (by positivity)
  have finite : ((units : Rat) * (2 ^ places : Int)).abs < 2 ^ (1024 : Int) := by
    rw [Rat.abs_of_nonneg positive]
    exact boundedRat.trans_lt standstill_lt
  refine ⟨units * 2 ^ places, bounded, ?_⟩
  rw [if_pos finite, ← Rat.intCast_mul]
  rfl

/-- A total that is reached leads, by a step that can be written, to another
one, unless the sum is negative. Reading refuses a negative sum at that very
step, so from the start of a text on all totals are reached. -/
theorem IsReached.add {total : Number} (reached : total.IsReached) {step : Int}
    (writable : step.natAbs ≤ Coordinate.greatest)
    (notNegative : (total + .ofInt step).isNegative = false) : (total + .ofInt step).IsReached := by
  obtain ⟨start, bounded, rfl⟩ := reached
  have rounded : Number.ofNat start + .ofInt step = round ((start + step : Int) : Rat) := by
    rw [ofNat_eq_ofInt]
    change round ((start : Int) + (step : Rat)) = _
    push_cast
    rfl
  have lower : -(exactBound : Int) ≤ start + step := by
    rw [Coordinate.greatest_eq] at writable
    unfold exactBound
    omega
  have upper : (start : Int) + step ≤ standstill + Coordinate.greatest := by omega
  obtain ⟨sum, sumBounded, isSum⟩ := exists_round_eq lower upper
  rw [rounded, isSum] at notNegative ⊢
  have nonnegative : 0 ≤ sum := by simpa [isNegative, ofInt] using notNegative
  obtain ⟨number, rfl⟩ := Int.eq_ofNat_of_zero_le nonnegative
  exact ⟨number, by exact_mod_cast sumBounded, (ofNat_eq_ofInt number).symm⟩

end Number
end SourceMap

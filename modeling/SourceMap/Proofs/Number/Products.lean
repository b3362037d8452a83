import SourceMap.Proofs.Number.Saturation

/-!
# Rounded products

A product is rounded like a sum. Powers of two below the range of double precision
are their own rounding, and the first one beyond it is infinite. Whatever reaches
the bound of exact integers stays there when it is rounded, so a sum that is found
below that bound was exact at each step.

The library itself never multiplies: the digits of a value are added up with exact
weights, and from some place on a weight counts as infinite. Products are here to
justify that, by a reader that calculates its weights and sums in double precision
and finds the same.
-/

namespace SourceMap
namespace Number

/-- The rounded product; zero times an infinity has none. -/
def mul : Number → Number → Number
  | .nan, _ => .nan
  | _, .nan => .nan
  | .infinite left, .infinite right => .infinite (left != right)
  | .infinite negative, .finite value =>
    if value = 0 then .nan else .infinite (negative != decide (value < 0))
  | .finite value, .infinite negative =>
    if value = 0 then .nan else .infinite (negative != decide (value < 0))
  | .finite left, .finite right => round (left * right)

instance : Mul Number := ⟨mul⟩

/-- Whether a number is a natural number from the bound of exact integers on, or
infinite. -/
def IsLarge (number : Number) : Prop :=
  number = .infinite false ∨ ∃ value ≥ exactBound, number = .ofNat value

/-- An integer is the integer nearest to it. -/
theorem nearestEven_intCast (value : Int) : nearestEven (value : Rat) = value := by
  obtain ⟨lower, upper⟩ := abs_le.mp (abs_nearestEven_sub_le (value : Rat))
  have below : ((nearestEven value : Int) : Rat) < (value + 1 : Int) := by
    push_cast
    linarith
  have above : ((value - 1 : Int) : Rat) < nearestEven (value : Rat) := by
    push_cast
    linarith
  have small : nearestEven (value : Rat) < value + 1 := by exact_mod_cast below
  have large : value - 1 < nearestEven (value : Rat) := by exact_mod_cast above
  omega

/-- A natural number within the exact bound is its own rounding. -/
theorem round_natCast_of_le {value : Nat} (exact : value ≤ exactBound) :
    round (value : Rat) = .ofNat value := by
  have bounded : (value : Int).natAbs ≤ exactBound := by simpa using exact
  have itself := round_intCast bounded
  rwa [Rat.intCast_natCast, ← ofNat_eq_ofInt] at itself

/-- The sum of natural numbers is rounded. -/
theorem ofNat_add_ofNat (left right : Nat) :
    ofNat left + ofNat right = round ((left + right : Nat) : Rat) := by
  change round ((left : Rat) + (right : Rat)) = _
  rw [Rat.natCast_add]

/-- The product of natural numbers is rounded. -/
theorem ofNat_mul_ofNat (left right : Nat) :
    ofNat left * ofNat right = round ((left * right : Nat) : Rat) := by
  change round ((left : Rat) * (right : Rat)) = _
  rw [Rat.natCast_mul]

/-- Beyond the bound of exact integers a natural number is rounded to a multiple
of its last place. -/
theorem round_natCast {magnitude : Nat} (beyond : exactBound < magnitude) :
    round magnitude =
      let units := nearestEven ((magnitude : Rat) / (2 ^ (magnitude.log2 - 52) : Int))
      if ((units : Rat) * (2 ^ (magnitude.log2 - 52) : Int)).abs < 2 ^ (1024 : Int) then
        ofInt (units * 2 ^ (magnitude.log2 - 52))
      else .infinite false := by
  have general : ¬((magnitude : Rat).den = 1 ∧ (magnitude : Rat).num.natAbs ≤ exactBound) := by
    simpa using beyond
  have magnitudeIs : (magnitude : Rat).abs = magnitude := Rat.abs_of_nonneg (by positivity)
  have notNegative : decide ((magnitude : Rat) < 0) = false := by simp
  rw [round, if_neg general]
  simp only [magnitudeIs, lastPlace_natCast beyond, notNegative, ofInt, Rat.intCast_mul]

/-- A natural number beyond the bound has at least the units of the last place
that the lowest of its binary order has. -/
theorem le_nearestEven_div {magnitude : Nat} (beyond : exactBound < magnitude) :
    2 ^ 52 ≤ nearestEven ((magnitude : Rat) / (2 ^ (magnitude.log2 - 52) : Int)) := by
  have places : 53 ≤ magnitude.log2 := by
    rw [Nat.le_log2 (by omega)]
    exact beyond.le
  have reached : 2 ^ 52 * 2 ^ (magnitude.log2 - 52) ≤ magnitude := by
    rw [← pow_add, show 52 + (magnitude.log2 - 52) = magnitude.log2 by omega]
    exact Nat.log2_self_le (by omega)
  have quotient : (2 ^ 52 : Rat) ≤ (magnitude : Rat) / (2 ^ (magnitude.log2 - 52) : Int) := by
    have unitPositive : (0 : Rat) < (2 ^ (magnitude.log2 - 52) : Int) := by positivity
    rw [le_div_iff₀ unitPositive]
    exact_mod_cast reached
  have nearest := (abs_le.mp (abs_nearestEven_sub_le
    ((magnitude : Rat) / (2 ^ (magnitude.log2 - 52) : Int)))).1
  have above : ((2 ^ 52 - 1 : Int) : Rat) <
      nearestEven ((magnitude : Rat) / (2 ^ (magnitude.log2 - 52) : Int)) := by
    push_cast
    push_cast at nearest quotient
    linarith
  exact Int.le_of_sub_one_lt (by exact_mod_cast above)

/-- What reaches the bound of exact integers stays there when it is rounded. The
rounded number is a natural number again, or infinite.

Proof: beyond the bound a number is rounded to a multiple of its last place, and
its quotient by that place is at least the 52nd power of two; rounding the
quotient to an integer keeps it there, and the product with the last place is
then no smaller than the bound. -/
theorem isLarge_round {magnitude : Nat} (large : exactBound ≤ magnitude) :
    (round magnitude).IsLarge := by
  rcases large.lt_or_eq with beyond | same
  · have enough := le_nearestEven_div beyond
    have places : 53 ≤ magnitude.log2 := by
      rw [Nat.le_log2 (by omega)]
      exact beyond.le
    have double : 2 ^ 1 ≤ 2 ^ (magnitude.log2 - 52) := Nat.pow_le_pow_right (by decide) (by omega)
    rw [round_natCast beyond]
    dsimp only
    generalize nearestEven ((magnitude : Rat) / (2 ^ (magnitude.log2 - 52) : Int)) = units at *
    split
    · obtain ⟨count, rfl⟩ := Int.eq_ofNat_of_zero_le (show 0 ≤ units by omega)
      refine Or.inr ⟨count * 2 ^ (magnitude.log2 - 52), ?_, ?_⟩
      · calc exactBound = 2 ^ 52 * 2 ^ 1 := by decide
          _ ≤ count * 2 ^ (magnitude.log2 - 52) := Nat.mul_le_mul (by exact_mod_cast enough) double
      · rw [ofNat_eq_ofInt]
        push_cast
        rfl
    · exact Or.inl rfl
  · exact Or.inr ⟨magnitude, large, round_natCast_of_le same.ge⟩

/-- A large number and a natural number have a large sum. -/
theorem IsLarge.add_left {number : Number} (large : number.IsLarge) (value : Nat) :
    (ofNat value + number).IsLarge := by
  rcases large with rfl | ⟨other, reached, rfl⟩
  · exact Or.inl rfl
  · rw [ofNat_add_ofNat]
    exact isLarge_round (by omega)

/-- A large number comes after every exact integer. -/
theorem IsLarge.compare? {number : Number} (large : number.IsLarge) :
    Number.compare? number (.ofNat (exactBound - 1)) = some .gt := by
  rcases large with rfl | ⟨value, reached, rfl⟩
  · rfl
  · have less : exactBound - 1 < value := by
      have positive : 0 < exactBound := by decide
      omega
    exact compare?_finite_eq_gt.mpr (by exact_mod_cast less)

/-- A power of two in the range of double precision is its own rounding, and one
beyond it is infinite. So the weight `2 ^ (5 * place)` is a number up to place
204 and infinite from place 205 on. -/
theorem round_two_pow (exponent : Nat) :
    round ((2 ^ exponent : Nat) : Rat) =
      if exponent < 1024 then .ofNat (2 ^ exponent) else .infinite false := by
  have bound : exactBound = 2 ^ 53 := by decide
  by_cases small : exponent ≤ 53
  · have exact : 2 ^ exponent ≤ exactBound := bound ▸ Nat.pow_le_pow_right (by decide) small
    rw [round_natCast_of_le exact, if_pos (by omega)]
  · have beyond : exactBound < 2 ^ exponent := by
      rw [bound]
      exact Nat.pow_lt_pow_right (by decide) (not_le.mp small)
    have places : 52 + (exponent - 52) = exponent := by omega
    have quotient :
        ((2 ^ exponent : Nat) : Rat) / (2 ^ (exponent - 52) : Int) = (2 ^ 52 : Int) := by
      rw [div_eq_iff (by positivity)]
      exact_mod_cast (places ▸ pow_add 2 52 (exponent - 52) : 2 ^ exponent = _)
    have product : (2 ^ 52 : Int) * 2 ^ (exponent - 52) = (2 ^ exponent : Nat) := by
      rw [← pow_add, places]
      exact_mod_cast rfl
    have inRange :
        (((2 ^ exponent : Nat) : Int) : Rat).abs < 2 ^ (1024 : Int) ↔ exponent < 1024 := by
      have power : (2 : Rat) ^ (1024 : Int) = 2 ^ 1024 := zpow_natCast 2 1024
      rw [Rat.abs_of_nonneg (by positivity), power, Rat.intCast_natCast, Rat.natCast_pow]
      exact pow_lt_pow_iff_right₀ one_lt_two
    rw [round_natCast beyond, Nat.log2_two_pow, quotient, nearestEven_intCast]
    simp only [← Rat.intCast_mul, product, inRange, ofNat_eq_ofInt]

end Number
end SourceMap

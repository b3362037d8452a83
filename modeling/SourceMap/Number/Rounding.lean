import SourceMap.Number.Basic

/-!
# Rounding to double precision

A calculation is exact and its result is rounded once, to the nearest rational
with a significand of 53 binary digits and a last place no smaller than `2 ^
-1074`; of two equally near neighbours the one with the even significand wins, and
a result that rounds to `2 ^ 1024` or beyond is an infinity. Integers of magnitude
at most `2 ^ 53` are their own rounding, so sums of small integers are exact.

Addition and subtraction are all that cursors need, and products stay inside the
digits of a value, where they are exact until they are infinite. A sum whose exact
value is beyond the bound depends on the order in which its parts are added.
-/

namespace SourceMap
namespace Number

/-- The greatest integer up to which every integer is a number of double
precision: the 53rd power of two. -/
def exactBound : Nat := 9007199254740992

/-- The integer nearest to a rational; of two equally near ones, the even one. -/
def nearestEven (value : Rat) : Int :=
  let below := value.floor
  match compareOfLessAndEq (value - below) (1 / 2) with
  | .lt => below
  | .gt => below + 1
  | .eq => if below % 2 = 0 then below else below + 1

/-- The exponent of the greatest power of two that a positive magnitude reaches. -/
def binaryExponent (magnitude : Rat) : Int :=
  let estimate : Int := (magnitude.num.natAbs.log2 : Int) - magnitude.den.log2
  if magnitude < 2 ^ estimate then estimate - 1 else estimate

/-- The distance between neighbouring numbers at a positive magnitude. -/
def lastPlace (magnitude : Rat) : Rat :=
  2 ^ max (binaryExponent magnitude - 52) (-1074)

/-- The number of double precision nearest to a rational. Integers within the
exact bound are answered at once; on them the general rule changes nothing. -/
def round (value : Rat) : Number :=
  if value.den = 1 ∧ value.num.natAbs ≤ exactBound then
    .finite value
  else
    let unit := lastPlace value.abs
    let rounded := nearestEven (value / unit) * unit
    if rounded.abs < 2 ^ (1024 : Int) then .finite rounded else .infinite (decide (value < 0))

/-- The rounded sum; opposite infinities have none. -/
def add : Number → Number → Number
  | .nan, _ => .nan
  | _, .nan => .nan
  | .infinite left, .infinite right => if left = right then .infinite left else .nan
  | .infinite negative, .finite _ => .infinite negative
  | .finite _, .infinite negative => .infinite negative
  | .finite left, .finite right => round (left + right)

/-- The rounded difference. -/
def sub (left right : Number) : Number := add left (-right)

instance : Add Number := ⟨add⟩
instance : Sub Number := ⟨sub⟩

/-- An integer within the exact bound is its own rounding. -/
theorem round_intCast {value : Int} (bounded : value.natAbs ≤ exactBound) :
    round value = ofInt value := by
  simp [round, ofInt, bounded]

/-- A sum of integers that stays within the exact bound is exact. -/
theorem ofInt_add_ofInt {left right : Int} (bounded : (left + right).natAbs ≤ exactBound) :
    ofInt left + ofInt right = ofInt (left + right) := by
  change round ((left : Rat) + (right : Rat)) = _
  rw [← Rat.intCast_add]
  exact round_intCast bounded

/-- A difference of integers that stays within the exact bound is exact. -/
theorem ofInt_sub_ofInt {left right : Int} (bounded : (left - right).natAbs ≤ exactBound) :
    ofInt left - ofInt right = ofInt (left - right) := by
  change round ((left : Rat) + -(right : Rat)) = _
  rw [← Rat.intCast_neg, ← Rat.intCast_add, ← Int.sub_eq_add_neg]
  exact round_intCast bounded

end Number
end SourceMap

import SourceMap.Number.Rounding

/-!
# Decimals

A decimal is a natural number of units of a power of ten. `Decimal.toNumber`
rounds one to a number, and `Decimal.shortest` goes back: among the decimals that
round to a given positive number it chooses one with the fewest digits, of those
the nearest to the number, and of two equally near the even one. A grid of
decimals of one width that has a hit at all has one among the number's two
neighbours on the grid, so only those are tried.

Both directions are exact calculations with rationals that end in one rounding.
That a choice of seventeen digits always reads back is a fact about double
precision on which the definition relies for its last case only; it is not proved
here.
-/

namespace SourceMap

/-- The value `digits * 10 ^ exponent`. -/
structure Decimal where
  digits : Nat
  exponent : Int
deriving DecidableEq, Inhabited

namespace Decimal

/-- How many decimal digits a natural number is written with; zero takes one. -/
def width (value : Nat) : Nat := (Nat.toDigits 10 value).length

/-- The rational that a decimal denotes. -/
def toRat (decimal : Decimal) : Rat := decimal.digits * 10 ^ decimal.exponent

/-- The number nearest to a decimal. Exponents beyond the range of numbers are
settled without forming the power: from `10 ^ 310` on every value is infinite,
and below `10 ^ -330` every value rounds to zero. -/
def toNumber (decimal : Decimal) : Number :=
  let place := decimal.exponent + width decimal.digits
  if decimal.digits = 0 ∨ place < -330 then 0
  else if 311 ≤ place then .infinite false
  else .round decimal.toRat

/-- The least exponent whose power of ten exceeds a positive rational: the place
just before its leading digit. -/
def leadingPlace (value : Rat) : Int :=
  if 1 ≤ value then width value.floor.toNat
  else 1 - (width (value⁻¹.ceil - 1).toNat : Int)

/-- The decimals of a given width around a positive rational that round to it,
nearest first; of two equally near ones the even one comes first. -/
def candidates (value : Rat) (count : Nat) : List Decimal :=
  let exponent := leadingPlace value - count
  let below := (value / 10 ^ exponent).floor.toNat
  let low : Decimal := ⟨below, exponent⟩
  let high : Decimal := ⟨below + 1, exponent⟩
  let lowFirst := match compareOfLessAndEq (value - low.toRat) (high.toRat - value) with
    | .lt => true
    | .gt => false
    | .eq => decide (below % 2 = 0)
  (if lowFirst then [low, high] else [high, low]).filter
    fun decimal => decimal.toNumber = .finite value

/-- A decimal of the fewest digits that rounds to a positive number; seventeen
digits always suffice for a number of double precision. -/
def shortest (value : Rat) : Decimal :=
  ((List.range 17).findSome? fun count => (candidates value (count + 1)).head?).getD
    ⟨value.floor.toNat, 0⟩

end Decimal
end SourceMap

import SourceMap.Number.Rounding

/-!
# Coordinates

Lines and columns count from zero. The greatest coordinate is the greatest
magnitude that fits in the mappings of a source map, where a value is doubled to
make room for its sign and the result must stay below `2 ^ 53`.

The bound is one for all five parts of a segment and for the number of lines of a
document, and it is what writing checks against. Reading has no such check on the
values that add up from differences, so a text can stand for coordinates that
cannot be written again.
-/

namespace SourceMap

namespace Coordinate

/-- The greatest coordinate, `2 ^ 52 - 1`. -/
def greatest : Nat := (Number.exactBound - 1) / 2

theorem greatest_eq : greatest = 4503599627370495 := by decide

end Coordinate

/-- The coordinate that a number is, if it is one. -/
def Number.coordinate? (number : Number) : Option Nat :=
  number.toNat?.filter fun value => decide (value ≤ Coordinate.greatest)

/-- A natural number is a coordinate exactly up to the greatest one. -/
theorem Number.coordinate?_ofNat (value : Nat) :
    (Number.ofNat value).coordinate? =
      if value ≤ Coordinate.greatest then some value else none := by
  simp [Number.coordinate?, Option.filter]

end SourceMap

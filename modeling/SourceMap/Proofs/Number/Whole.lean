import SourceMap.Proofs.Number.Order
import SourceMap.Segment

/-!
# Whole numbers

Adding integers in double precision leads to integers, however large they become:
beyond the bound of exact integers the distance between neighbours is an integer
itself. So a running total of integers is an integer, unless it is infinite, and
it is a place of a table exactly if it is between zero and the table's length. In
particular it is never undefined, and what is not outside a table is at one of its
places.

The last point is where defined and undefined values part. A total that is whole
and passes the check against both ends of a table has an entry there; an undefined
one passes the check and has none.
-/

namespace SourceMap
namespace Number

/-- Whether a number is an integer or an infinity. -/
def IsWhole : Number → Prop
  | .nan => False
  | .infinite _ => True
  | .finite value => value.den = 1

/-- An integer is whole. -/
theorem isWhole_ofInt (value : Int) : (ofInt value).IsWhole := Rat.den_intCast value

/-- A whole number that is finite is an integer. -/
theorem IsWhole.finite_eq_ofInt {value : Rat} (whole : (Number.finite value).IsWhole) :
    Number.finite value = ofInt value.num :=
  congrArg Number.finite ((Rat.den_eq_one_iff value).mp whole).symm

/-- From the bound of exact integers on, neighbours are at an integer distance,
a power of two. -/
theorem lastPlace_natCast {magnitude : Nat} (beyond : exactBound < magnitude) :
    lastPlace magnitude = ((2 ^ (magnitude.log2 - 52) : Int) : Rat) := by
  have large : 53 ≤ magnitude.log2 := by
    rw [Nat.le_log2 (by omega)]
    exact beyond.le
  have reached : ¬(magnitude : Rat) < 2 ^ (magnitude.log2 : Int) := by
    rw [not_lt, zpow_natCast]
    exact_mod_cast Nat.log2_self_le (by omega)
  have exponent : binaryExponent magnitude = magnitude.log2 := by
    have one : Nat.log2 1 = 0 := by decide
    simp only [binaryExponent, Rat.num_natCast, Rat.den_natCast, Int.natAbs_natCast, one,
      Nat.cast_zero, sub_zero, if_neg reached]
  have places : max ((magnitude.log2 : Int) - 52) (-1074) = (magnitude.log2 - 52 : Nat) := by omega
  rw [lastPlace, exponent, places, zpow_natCast]
  push_cast
  rfl

/-- Rounding an integer gives an integer or an infinity. There is no bound on
the integer.

Proof: within the exact bound nothing is rounded. Beyond it the last place is a
power of two with an exponent of zero or more, so a multiple of it is an
integer. -/
theorem isWhole_round (value : Int) : (round value).IsWhole := by
  unfold round
  split
  · exact Rat.den_intCast value
  · rename_i beyond
    have large : exactBound < value.natAbs := by simpa using beyond
    have isUnit := lastPlace_natCast large
    have magnitude : (value : Rat).abs = (value.natAbs : Rat) := by
      rw [Nat.cast_natAbs, Int.cast_abs, Rat.abs, abs_eq_max_neg]
      split
      · exact (max_eq_left (by linarith)).symm
      · exact (max_eq_right (by linarith)).symm
    simp only [magnitude, isUnit]
    split
    · simp only [IsWhole]
      rw [← Rat.intCast_mul]
      exact Rat.den_intCast _
    · trivial

/-- A whole number and an integer have a whole sum. -/
theorem IsWhole.add_ofInt {left : Number} (whole : left.IsWhole) (right : Int) :
    (left + ofInt right).IsWhole := by
  change (Number.add left (ofInt right)).IsWhole
  cases left with
  | nan => exact absurd whole id
  | infinite negative => trivial
  | finite value =>
    have integer : (value.num : Rat) = value := (Rat.den_eq_one_iff value).mp whole
    rw [ofInt, Number.add, ← integer, ← Rat.intCast_add]
    exact isWhole_round _

end Number

/-- Whether a number is a place in a table of the given size. -/
@[mk_iff]
structure Number.IsPlace (index : Number) (size : Nat) : Prop where
  notNegative : index.isNegative = false
  below : Number.compare? index (.ofNat size) = some .lt

/-- An integer is a place of a table exactly if it is between zero and the size. -/
theorem Number.isPlace_ofInt_iff {index : Int} {size : Nat} :
    (Number.ofInt index).IsPlace size ↔ 0 ≤ index ∧ index < size := by
  have notNegative : (Number.ofInt index).isNegative = false ↔ 0 ≤ index := by
    simp [isNegative, ofInt]
  have below : compare? (.ofInt index) (.ofNat size) = some .lt ↔ index < size := by
    rw [ofNat_eq_ofInt, compare?_ofInt, Option.some.injEq, compareOfLessAndEq_eq_lt]
  rw [isPlace_iff, notNegative, below]

/-- A whole number is a place of a table exactly if it is not outside. -/
theorem Number.IsWhole.isOutside_eq_false_iff {index : Number} (whole : index.IsWhole)
    {size : Nat} : index.isOutside size = false ↔ index.IsPlace size := by
  have compares : ∃ order, compare? index (.ofNat size) = some order := by
    cases index with
    | nan => exact absurd whole id
    | infinite negative => exact ⟨_, rfl⟩
    | finite value => exact ⟨_, rfl⟩
  obtain ⟨order, compared⟩ := compares
  rw [isPlace_iff, isOutside, compared]
  cases order <;> simp

/-- An integer is outside a table exactly if it is not between zero and the
size. -/
theorem Number.isOutside_ofInt_eq_false_iff {index : Int} {size : Nat} :
    (Number.ofInt index).isOutside size = false ↔ 0 ≤ index ∧ index < size :=
  (isWhole_ofInt index).isOutside_eq_false_iff.trans isPlace_ofInt_iff

/-- A whole number points to an entry of a table exactly if it is one of its
places. For a number that is finite but no integer this fails from right to
left. -/
theorem isSome_entryAt?_iff {α : Type} {index : Number} (whole : index.IsWhole)
    (entries : List α) :
    (entryAt? entries index).isSome = true ↔ index.IsPlace entries.length := by
  cases index with
  | nan => exact absurd whole id
  | infinite negative =>
    cases negative <;>
      simp [entryAt?, Number.toNat?, Number.toInt?, Number.isPlace_iff, Number.compare?,
        Number.ofNat, Number.isNegative]
  | finite value =>
    rw [whole.finite_eq_ofInt, Number.isPlace_ofInt_iff]
    cases value.num with
    | ofNat place => simp [entryAt?, Number.toNat?]
    | negSucc place => simp [entryAt?, Number.toNat?]

end SourceMap

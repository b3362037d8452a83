/-!
# Numbers

A number is an exact rational, one of two infinities, or not a number at all. Zero
is unsigned. The one place where a sign of zero could be seen is a value read from
digits, and `Vlq.Value` has a sign of its own for it; beyond that nothing that
this library computes or prints depends on one. Equality of numbers is structural,
so two undefined numbers are the same key, whereas the order leaves an undefined
number incomparable.

The rationals a calculation produces are those of double precision; that is the
business of `Number.round` and not of the type.
-/

namespace SourceMap

/-- A rational, an infinity or the undefined number. -/
inductive Number where
  /-- The undefined number, such as the sum of opposite infinities. -/
  | nan
  /-- The infinity of the given sign. -/
  | infinite (negative : Bool)
  /-- An exact rational. -/
  | finite (value : Rat)
deriving DecidableEq, Inhabited

namespace Number

/-- Every integer is a number. -/
def ofInt (value : Int) : Number := .finite value

/-- Every natural number is a number. -/
def ofNat (value : Nat) : Number := .finite value

instance (n : Nat) : OfNat Number n := ⟨.ofNat n⟩

/-- The order of the extended line; an undefined number is comparable to
nothing, itself included. -/
def compare? : Number → Number → Option Ordering
  | .nan, _ => none
  | _, .nan => none
  | .infinite left, .infinite right => some (compare right left)
  | .infinite negative, .finite _ => some (if negative then .lt else .gt)
  | .finite _, .infinite negative => some (if negative then .gt else .lt)
  | .finite left, .finite right => some (compareOfLessAndEq left right)

/-- Below zero; an undefined number is not. -/
def isNegative : Number → Bool
  | .nan => false
  | .infinite negative => negative
  | .finite value => decide (value < 0)

/-- The number of opposite sign. -/
def negate : Number → Number
  | .nan => .nan
  | .infinite negative => .infinite !negative
  | .finite value => .finite (-value)

instance : Neg Number := ⟨negate⟩

/-- The integer that a number is, if it is one. -/
def toInt? : Number → Option Int
  | .finite value => if value.den = 1 then some value.num else none
  | _ => none

/-- The natural number that a number is, if it is one. -/
def toNat? (number : Number) : Option Nat :=
  match number.toInt? with
  | some (.ofNat value) => some value
  | _ => none

@[simp] theorem toInt?_ofInt (value : Int) : (ofInt value).toInt? = some value := by
  simp [ofInt, toInt?]

@[simp] theorem toNat?_ofNat (value : Nat) : (ofNat value).toNat? = some value := by
  simp [ofNat, toNat?, toInt?]

/-- Reading back an integer loses nothing: only that integer is read as it. -/
theorem toInt?_eq_some_iff {number : Number} {value : Int} :
    number.toInt? = some value ↔ number = ofInt value := by
  constructor
  · intro read
    cases number with
    | nan => simp [toInt?] at read
    | infinite negative => simp [toInt?] at read
    | finite rational =>
      simp only [toInt?] at read
      split at read
      · rename_i whole
        obtain rfl := Option.some.inj read
        exact congrArg Number.finite (Rat.ext (by simp) (by simp [whole]))
      · simp at read
  · rintro rfl
    simp

/-- Comparing integers as numbers is comparing them. -/
theorem compare?_ofInt (left right : Int) :
    compare? (ofInt left) (ofInt right) = some (compareOfLessAndEq left right) := by
  simp only [compare?, ofInt, compareOfLessAndEq, Rat.intCast_lt_intCast, Rat.intCast_inj]

end Number
end SourceMap

import SourceMap.Number.Decimal

/-!
# The written form of a number

A number is written with the fewest digits that read back. It is written in place,
without an exponent, as long as its leading digit stands at most 21 places before
the point and at most 6 places after it; otherwise one digit precedes the point
and a signed exponent follows. Integers have no point.

The form is used in messages, in JSON text and for the field names of a record.
Integers within the exact bound take a way of their own, their digits as they are;
for them it is proved that the form reads back. For other numbers the digits are
chosen by `Decimal.shortest`.
-/

namespace SourceMap
namespace Number

/-- Where writing in place ends: the leading digit stands at most `before`
places before the point and at most `after` places after it. -/
structure InPlace where
  before : Int
  after : Int

/-- The range in which numbers are written in place. -/
def inPlace : InPlace := ⟨21, 6⟩

/-- The significant digits of a decimal, without the zeros at its end. -/
def significant (decimal : Decimal) : List Char :=
  ((Nat.toDigits 10 decimal.digits).reverse.dropWhile (· == '0')).reverse

/-- Write significant digits whose leading digit stands just after the given
place. -/
def layOut (digits : List Char) (place : Int) : List Char :=
  let count : Int := digits.length
  if count ≤ place ∧ place ≤ inPlace.before then
    digits ++ List.replicate (place - count).toNat '0'
  else if 0 < place ∧ place ≤ inPlace.before then
    digits.take place.toNat ++ '.' :: digits.drop place.toNat
  else if -inPlace.after < place ∧ place ≤ 0 then
    '0' :: '.' :: List.replicate (-place).toNat '0' ++ digits
  else
    let exponent := place - 1
    let sign := if exponent < 0 then '-' else '+'
    let power := 'e' :: sign :: Nat.toDigits 10 exponent.natAbs
    match digits with
    | [digit] => digit :: power
    | digit :: rest => digit :: '.' :: rest ++ power
    | [] => power

/-- Write a positive rational of double precision. -/
def positiveChars (value : Rat) : List Char :=
  let decimal := Decimal.shortest value
  layOut (significant decimal) (decimal.exponent + Decimal.width decimal.digits)

/-- The written form of a number, as characters. -/
def chars : Number → List Char
  | .nan => "NaN".toList
  | .infinite negative => if negative then "-Infinity".toList else "Infinity".toList
  | .finite value =>
    if value.den = 1 ∧ value.num.natAbs ≤ exactBound then
      (if value < 0 then ['-'] else []) ++ Nat.toDigits 10 value.num.natAbs
    else if value < 0 then '-' :: positiveChars (-value)
    else positiveChars value

/-- The written form of a number. -/
def text (number : Number) : String := String.ofList number.chars

end Number
end SourceMap

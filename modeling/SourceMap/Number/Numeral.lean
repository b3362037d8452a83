import SourceMap.Number.Decimal
import SourceMap.Text.Blank

/-!
# Numerals

Two ways of reading a number from text. `Numeral.scan` reads the longest unsigned
decimal numeral at the start of a text, for grammars that go on after it.
`Number.ofKey` reads a whole text: blanks around it do not count, nothing at all
stands for zero, a signed decimal numeral may lack the digits on one side of its
point, integers may be written to the bases 16, 8 and 2 without a sign, and
whatever is no numeral is the undefined number.

The second is how the field names of a record become lines and columns. Many names
are one number, such as `1`, `01` and `1.0`, and every name that is no numeral is
the same undefined number.
-/

namespace SourceMap

/-- An unsigned decimal numeral: the digits before and after its point, and its
exponent. -/
structure Numeral where
  whole : List Char
  fraction : List Char
  exponent : Int

namespace Numeral

/-- The value of a digit in any base up to 36. -/
def digitValue (char : Char) : Nat :=
  if char.isDigit then char.toNat - '0'.toNat
  else if 'a' ≤ char ∧ char ≤ 'z' then char.toNat - 'a'.toNat + 10
  else if 'A' ≤ char ∧ char ≤ 'Z' then char.toNat - 'A'.toNat + 10
  else 36

/-- The natural number that digits spell in a base, the first being the
greatest. -/
def natOf (base : Nat) (digits : List Char) : Nat :=
  digits.foldl (fun total char => total * base + digitValue char) 0

/-- The number nearest to a numeral. -/
def value (numeral : Numeral) : Number :=
  Decimal.toNumber
    ⟨natOf 10 (numeral.whole ++ numeral.fraction), numeral.exponent - numeral.fraction.length⟩

/-- The longest run of decimal digits at the start of a text, and what follows
it. -/
def scanDigits (chars : List Char) : List Char × List Char :=
  (chars.takeWhile Char.isDigit, chars.dropWhile Char.isDigit)

/-- The exponent at the start of a text; without a digit there is none. -/
def scanExponent (chars : List Char) : Int × List Char :=
  match chars with
  | 'e' :: rest | 'E' :: rest =>
    let (negative, unsigned) := match rest with
      | '-' :: unsigned => (true, unsigned)
      | '+' :: unsigned => (false, unsigned)
      | unsigned => (false, unsigned)
    match scanDigits unsigned with
    | ([], _) => (0, chars)
    | (digits, after) => (if negative then -(natOf 10 digits : Int) else natOf 10 digits, after)
  | _ => (0, chars)

/-- The decimal numeral at the start of a text, with at least one digit, and
what follows it. A point belongs to it also without digits on one of its sides. -/
def scan (chars : List Char) : Option (Numeral × List Char) :=
  let (whole, after) := scanDigits chars
  let (fraction, after) := match after with
    | '.' :: rest => scanDigits rest
    | _ => ([], after)
  if whole = [] ∧ fraction = [] then none
  else
    let (exponent, after) := scanExponent after
    some (⟨whole, fraction, exponent⟩, after)

end Numeral

namespace Number

/-- The integer that a whole text spells in a base; at least one digit is
needed. -/
def ofDigits (base : Nat) (digits : List Char) : Number :=
  if digits ≠ [] ∧ digits.all (fun char => decide (Numeral.digitValue char < base)) then
    .round (Numeral.natOf base digits)
  else .nan

/-- Read an unsigned decimal numeral or the word for infinity, and nothing after
it. -/
def ofUnsigned (chars : List Char) : Number :=
  if chars = "Infinity".toList then .infinite false
  else match Numeral.scan chars with
    | some (numeral, []) => numeral.value
    | _ => .nan

/-- Read a whole text as a number. -/
def ofKey (key : String) : Number :=
  match Blank.trim key.toList with
  | [] => 0
  | '0' :: 'x' :: digits | '0' :: 'X' :: digits => ofDigits 16 digits
  | '0' :: 'o' :: digits | '0' :: 'O' :: digits => ofDigits 8 digits
  | '0' :: 'b' :: digits | '0' :: 'B' :: digits => ofDigits 2 digits
  | '-' :: unsigned => -ofUnsigned unsigned
  | '+' :: unsigned => ofUnsigned unsigned
  | unsigned => ofUnsigned unsigned

end Number
end SourceMap

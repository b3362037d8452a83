/-!
# Code units

Texts are measured and ordered by 16-bit code units: a character beyond the basic
plane counts as two units, a high surrogate followed by a low one, and so sorts
before the characters from U+E000 to U+FFFF. `Units.compare` is that order;
`Units.drop` cuts a text at an offset in units.

A text here is a list of whole characters. An offset can fall between the halves
of a pair all the same, and then a half would remain; it is shown as the
replacement character, which is not a digit and not a quote, just as the half is
neither. So a cut text differs from what would remain only where a message quotes
that character.
-/

namespace SourceMap
namespace Units

/-- The replacement character, which stands for half of a surrogate pair. -/
def replacement : Char := '\uFFFD'

/-- The code units of a character. -/
def ofChar (char : Char) : List Nat :=
  let code := char.toNat
  if code < 0x10000 then [code]
  else [0xD800 + (code - 0x10000) / 0x400, 0xDC00 + (code - 0x10000) % 0x400]

/-- The code units of a text. -/
def ofChars (chars : List Char) : List Nat := chars.flatMap ofChar

/-- How many code units a character has. -/
def width (char : Char) : Nat := if char.toNat < 0x10000 then 1 else 2

/-- The first code unit of a character, shown as a character. -/
def leading (char : Char) : Char := if char.toNat < 0x10000 then char else replacement

/-- The lexicographic order of texts by code unit. -/
def compare (left right : String) : Ordering :=
  List.compareLex Ord.compare (ofChars left.toList) (ofChars right.toList)

/-- What follows the given number of code units; of a pair cut in half the
second half stays, as the replacement character. -/
def drop : Nat → List Char → List Char
  | 0, chars => chars
  | _, [] => []
  | count + 1, char :: rest =>
    if width char = 1 then drop count rest
    else if count = 0 then replacement :: rest
    else drop (count - 1) rest

/-- Before the first code unit nothing is dropped. -/
@[simp] theorem drop_zero (chars : List Char) : drop 0 chars = chars := by
  cases chars <;> rfl

/-- Behind as many code units as the start of a text has, what follows that
start is left. -/
theorem drop_append (before rest : List Char) :
    drop (ofChars before).length (before ++ rest) = rest := by
  induction before with
  | nil => exact drop_zero rest
  | cons char before inductionHypothesis =>
    have units : ofChars (char :: before) = ofChar char ++ ofChars before := rfl
    rw [units, List.length_append, List.cons_append]
    by_cases basic : char.toNat < 0x10000
    · have one : (ofChar char).length = 1 := by simp [ofChar, basic]
      have narrow : width char = 1 := if_pos basic
      rw [one, Nat.add_comm, drop, if_pos narrow, inductionHypothesis]
    · have two : (ofChar char).length = 2 := by simp [ofChar, basic]
      have wide : width char = 2 := if_neg basic
      have count : 2 + (ofChars before).length = (ofChars before).length + 1 + 1 := by omega
      rw [two, count, drop, if_neg (by omega), if_neg (by omega), Nat.add_sub_cancel,
        inductionHypothesis]

/-- Split a text at the first character boundary at or after an offset in code
units. -/
def splitAt : Nat → List Char → List Char × List Char
  | 0, chars => ([], chars)
  | _, [] => ([], [])
  | count + 1, char :: rest =>
    let (before, after) := splitAt (count + 1 - width char) rest
    (char :: before, after)

end Units
end SourceMap

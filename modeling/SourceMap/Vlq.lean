import SourceMap.Fault

/-!
# Variable-length quantities

A value is written in base-64 digits, least significant first. Of a digit's six
bits the highest announces another digit and the other five carry data. The data
spell a natural number that holds the sign in its lowest bit and the magnitude
above it. Values of magnitude up to `Coordinate.greatest` can be written; a run of
digits holds the values of one segment without anything between them.

`Vlq.read` takes one value from the start of a text and leaves the rest. The
weight of a digit is `32 ^ place`. From place 205 on that power is beyond double
precision and counts as infinite: a data digit there is too large, whereas a zero
digit makes the value undefined, which no later digit mends and no check refuses.

What is read has a sign of its own, so that zero and its negative differ as they
do in double precision. Everything after decoding goes by the number alone.
-/

namespace SourceMap
namespace Vlq

/-- The character of a base-64 digit. -/
def digitChar (digit : Nat) : Char :=
  if digit < 26 then Char.ofNat ('A'.toNat + digit)
  else if digit < 52 then Char.ofNat ('a'.toNat + (digit - 26))
  else if digit < 62 then Char.ofNat ('0'.toNat + (digit - 52))
  else if digit = 62 then '+'
  else '/'

/-- The base-64 digit that a character is, if it is one. -/
def digitValue? (char : Char) : Option Nat :=
  if 'A' ≤ char ∧ char ≤ 'Z' then some (char.toNat - 'A'.toNat)
  else if 'a' ≤ char ∧ char ≤ 'z' then some (char.toNat - 'a'.toNat + 26)
  else if '0' ≤ char ∧ char ≤ '9' then some (char.toNat - '0'.toNat + 52)
  else if char = '+' then some 62
  else if char = '/' then some 63
  else none

/-- Every digit is read back from its character. -/
theorem digitValue?_digitChar {digit : Nat} (bounded : digit < 64) :
    digitValue? (digitChar digit) = some digit := by
  have every : ∀ digit : Fin 64, digitValue? (digitChar digit) = some digit.val := by decide
  exact every ⟨digit, bounded⟩

/-- A natural number in digits of five data bits; every digit but the last
announces another one. -/
def writeNat (value : Nat) : List Char :=
  if value < 32 then [digitChar value]
  else digitChar (32 + value % 32) :: writeNat (value / 32)
termination_by value
decreasing_by omega

/-- The natural number that holds the sign of an integer in its lowest bit. -/
def foldSign (value : Int) : Nat := if value < 0 then 2 * value.natAbs + 1 else 2 * value.natAbs

/-- An integer in digits. -/
def writeInt (value : Int) : List Char := writeNat (foldSign value)

/-- A number in digits, if it is an integer of a magnitude that can be written. -/
def encode (value : Number) : Except Fault (List Char) :=
  match value.toInt? with
  | some integer =>
    if integer.natAbs ≤ Coordinate.greatest then .ok (writeInt integer)
    else .error (.unencodable value)
  | none => .error (.unencodable value)

/-- Numbers in one run of digits. -/
def encodeRun (values : List Number) : Except Fault (List Char) :=
  (values.mapM encode).map List.flatten

/-- The first place whose weight is not a finite number of double precision. -/
def endlessPlace : Nat := 205

/-- Add the data of a digit at a place to the number spelled so far; nothing
stands for the undefined number. -/
def addDigit (place data : Nat) : Option Nat → Except VlqDefect (Option Nat)
  | none => .ok none
  | some spelled =>
    if place < endlessPlace then
      let total := spelled + data * Nat.pow 32 place
      if total < Number.exactBound then .ok (some total) else .error .tooLarge
    else if data = 0 then .ok none
    else .error .tooLarge

/-- Read digits from a place on: the number spelled, how many digits it took,
and the rest of the text. -/
def readNat (place : Nat) (spelled : Option Nat) :
    List Char → Except VlqDefect (Option Nat × Nat × List Char)
  | [] => .error (if place = 0 then .empty else .incomplete)
  | char :: rest =>
    match digitValue? char with
    | none => .error (.invalidCharacter char)
    | some digit =>
      match addDigit place (digit % 32) spelled with
      | .error defect => .error defect
      | .ok spelled =>
        if digit < 32 then .ok (spelled, place + 1, rest)
        else readNat (place + 1) spelled rest

/-- What is read for one value: the undefined number, or a sign and a magnitude.
A negative zero can be told from zero here; in a `Number` it cannot. -/
inductive Value where
  | undefined
  | signed (negative : Bool) (magnitude : Nat)
deriving DecidableEq

namespace Value

/-- The value of opposite sign. -/
def negate : Value → Value
  | .undefined => .undefined
  | .signed negative magnitude => .signed (!negative) magnitude

/-- The zero of negative sign. -/
def minusZero : Value := .signed true 0

/-- The number that a value is, with no sign of zero. -/
def number : Value → Number
  | .undefined => .nan
  | .signed negative magnitude => if negative then -.ofNat magnitude else .ofNat magnitude

end Value

/-- The value that digits spell. A lone sign bit makes zero, not the negative of
zero. -/
def valueOf : Option Nat → Value
  | none => .undefined
  | some shifted =>
    let magnitude := Value.signed false (shifted / 2)
    if shifted % 2 = 1 ∧ shifted / 2 ≠ 0 then magnitude.negate else magnitude

/-- One value read from the start of a text: the value, how many digits it took,
and the rest of the text. -/
structure Reading where
  value : Value
  length : Nat
  rest : List Char
deriving DecidableEq

/-- Read one value from the start of a text. -/
def read (chars : List Char) : Except VlqDefect Reading :=
  (readNat 0 (some 0) chars).map fun (spelled, length, rest) => ⟨valueOf spelled, length, rest⟩

theorem readNat_rest_length {place : Nat} {spelled result : Option Nat} {chars rest : List Char}
    {length : Nat} (success : readNat place spelled chars = .ok (result, length, rest)) :
    rest.length < chars.length := by
  induction chars generalizing place spelled with
  | nil => simp [readNat] at success
  | cons char tail inductionHypothesis =>
    simp only [readNat] at success
    split at success
    · simp at success
    · split at success
      · simp at success
      · split at success
        · obtain ⟨_, _, rfl⟩ := by simpa using success
          simp
        · exact Nat.lt_succ_of_lt (inductionHypothesis success)

/-- A value takes at least one digit. -/
theorem read_rest_length {chars : List Char} {reading : Reading}
    (success : read chars = .ok reading) : reading.rest.length < chars.length := by
  cases digits : readNat 0 (some 0) chars with
  | error defect => simp [read, digits, Except.map] at success
  | ok result =>
    obtain ⟨spelled, length, rest⟩ := result
    have same : Reading.mk (valueOf spelled) length rest = reading := by
      simpa [read, digits, Except.map] using success
    exact same ▸ readNat_rest_length digits

/-- Read values up to the end of a text. -/
def readValues (chars : List Char) : Except VlqDefect (List Value) :=
  match chars with
  | [] => .ok []
  | char :: tail =>
    match _success : read (char :: tail) with
    | .error defect => .error defect
    | .ok reading => (readValues reading.rest).map (reading.value :: ·)
termination_by chars.length
decreasing_by exact read_rest_length ‹_›

/-- The values of a run of digits, which holds at least one. -/
def readRunValues (run : List Char) : Except VlqDefect (List Value) :=
  if run = [] then .error .empty else readValues run

/-- The numbers of a run of digits. -/
def readRun (run : List Char) : Except VlqDefect (List Number) :=
  (readRunValues run).map fun values => values.map Value.number

/-- The value that starts at an offset in code units, and how many digits it
takes. -/
def decodeValue (text : String) (start : Nat) : Except Fault (Value × Nat) :=
  ((read (Units.drop start text.toList)).map fun reading =>
    (reading.value, reading.length)).mapError fun defect => .malformedVlq defect none

/-- The number that starts at an offset in code units, and how many digits it
takes. -/
def decode (text : String) (start : Nat) : Except Fault (Number × Nat) :=
  (decodeValue text start).map fun (value, length) => (value.number, length)

/-- The values of a run of digits. -/
def decodeRunValues (run : String) : Except Fault (List Value) :=
  (readRunValues run.toList).mapError fun defect => .malformedVlq defect none

/-- The numbers of a run of digits. -/
def decodeRun (run : String) : Except Fault (List Number) :=
  (decodeRunValues run).map fun values => values.map Value.number

end Vlq
end SourceMap

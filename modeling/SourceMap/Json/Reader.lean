import SourceMap.Json.Basic
import SourceMap.Text.Units

/-!
# Reading JSON text

The grammar is RFC 8259 to the letter: one value, with spaces, tabs, line feeds
and carriage returns around its tokens and nothing else. Of the fields of one name
the last one wins. Each call of the reader spends one unit of fuel, and a reader
of a text never needs more than two units a character.

A string may escape half of a surrogate pair on its own. It is read as the
replacement character, so that strings which differ in such halves only become one
string; texts without lone halves are read exactly. Which texts those are is
`Json.PairedText`, and a result that depends on telling strings apart asks for it.
-/

namespace SourceMap
namespace Json

/-- Skip the spaces between tokens. -/
def skipSpace (chars : List Char) : List Char :=
  chars.dropWhile fun char => char == ' ' || char == '\t' || char == '\n' || char == '\r'

/-- The character that a one-letter escape stands for. -/
def escaped? : Char → Option Char
  | '"' => some '"'
  | '\\' => some '\\'
  | '/' => some '/'
  | 'b' => some '\x08'
  | 'f' => some '\x0c'
  | 'n' => some '\n'
  | 'r' => some '\r'
  | 't' => some '\t'
  | _ => none

/-- The code unit that four hexadecimal digits spell. -/
def codeUnit? (digits : List Char) : Option Nat :=
  if digits.all fun char => decide (Numeral.digitValue char < 16) then
    some (Numeral.natOf 16 digits)
  else none

/-- Whether a code unit is the first half of a surrogate pair. -/
def isHigh (unit : Nat) : Bool := decide (0xD800 ≤ unit ∧ unit < 0xDC00)

/-- Whether a code unit is the second half of a surrogate pair. -/
def isLow (unit : Nat) : Bool := decide (0xDC00 ≤ unit ∧ unit < 0xE000)

/-- The character of a code unit on its own. -/
def charOfUnit (unit : Nat) : Char :=
  if isHigh unit || isLow unit then Units.replacement else Char.ofNat unit

/-- The character of a surrogate pair. -/
def charOfPair (high low : Nat) : Char :=
  Char.ofNat (0x10000 + (high - 0xD800) * 0x400 + (low - 0xDC00))

/-- A piece of a string: a character that stands for itself or is escaped by a
letter, or a code unit escaped by its digits. -/
inductive Piece where
  | char (char : Char)
  | unit (unit : Nat)

/-- The text that pieces spell: neighbouring halves of a surrogate pair are one
character. -/
def joinPieces : List Piece → List Char
  | [] => []
  | .char char :: rest => char :: joinPieces rest
  | [.unit unit] => [charOfUnit unit]
  | .unit unit :: .char char :: rest => charOfUnit unit :: char :: joinPieces rest
  | .unit first :: .unit second :: rest =>
    if isHigh first && isLow second then charOfPair first second :: joinPieces rest
    else charOfUnit first :: joinPieces (.unit second :: rest)

/-- Read the pieces of a string up to its closing quote. -/
def readPieces : List Char → Option (List Piece × List Char)
  | [] => none
  | '"' :: rest => some ([], rest)
  | '\\' :: 'u' :: a :: b :: c :: d :: rest => do
    let unit ← codeUnit? [a, b, c, d]
    let (pieces, rest) ← readPieces rest
    return (.unit unit :: pieces, rest)
  | '\\' :: letter :: rest => do
    let char ← escaped? letter
    let (pieces, rest) ← readPieces rest
    return (.char char :: pieces, rest)
  | char :: rest =>
    if char.toNat < 0x20 ∨ char = '\\' then none
    else do
      let (pieces, rest) ← readPieces rest
      return (.char char :: pieces, rest)

/-- Read the rest of a string up to its closing quote. -/
def readString (chars : List Char) : Option (String × List Char) := do
  let (pieces, rest) ← readPieces chars
  return (String.ofList (joinPieces pieces), rest)

/-- Take a minus off a number. -/
def readSign : List Char → Bool × List Char
  | '-' :: rest => (true, rest)
  | chars => (false, chars)

/-- Read digits, at least one. -/
def readDigits (chars : List Char) : Option (List Char × List Char) :=
  match Numeral.scanDigits chars with
  | ([], _) => none
  | scanned => some scanned

/-- Read the digits before a point, where a leading zero stands alone. -/
def readWhole : List Char → Option (List Char × List Char)
  | '0' :: rest => some (['0'], rest)
  | chars => readDigits chars

/-- Read the digits after a point; without a point there are none. -/
def readFraction : List Char → Option (List Char × List Char)
  | '.' :: rest => readDigits rest
  | chars => some ([], chars)

/-- Read a number: a sign only if it is a minus, no leading zero, and digits on
both sides of a point. -/
def readNumber (chars : List Char) : Option (Number × List Char) := do
  let (negative, unsigned) := readSign chars
  let (whole, rest) ← readWhole unsigned
  let (fraction, rest) ← readFraction rest
  let (exponent, rest) := Numeral.scanExponent rest
  let value := Numeral.value ⟨whole, fraction, exponent⟩
  return (if negative then -value else value, rest)

mutual

/-- Read one value and the spaces before it. -/
def readValue : Nat → List Char → Option (Json × List Char)
  | 0, _ => none
  | fuel + 1, chars =>
    match skipSpace chars with
    | 'n' :: 'u' :: 'l' :: 'l' :: rest => some (.null, rest)
    | 't' :: 'r' :: 'u' :: 'e' :: rest => some (.bool true, rest)
    | 'f' :: 'a' :: 'l' :: 's' :: 'e' :: rest => some (.bool false, rest)
    | '"' :: rest => do
      let (value, rest) ← readString rest
      return (.string value, rest)
    | '[' :: rest =>
      match skipSpace rest with
      | ']' :: rest => some (.array [], rest)
      | rest => do
        let (items, rest) ← readItems fuel rest
        return (.array items, rest)
    | '{' :: rest =>
      match skipSpace rest with
      | '}' :: rest => some (.object [], rest)
      | rest => do
        let (fields, rest) ← readFields fuel rest
        return (.ofFields fields, rest)
    | rest => do
      let (value, rest) ← readNumber rest
      return (.number value, rest)

/-- Read the items of an array and its closing bracket. -/
def readItems : Nat → List Char → Option (List Json × List Char)
  | 0, _ => none
  | fuel + 1, chars => do
    let (item, rest) ← readValue fuel chars
    match skipSpace rest with
    | ',' :: rest => do
      let (items, rest) ← readItems fuel rest
      return (item :: items, rest)
    | ']' :: rest => return ([item], rest)
    | _ => none

/-- Read the fields of an object and its closing brace. -/
def readFields : Nat → List Char → Option (List (String × Json) × List Char)
  | 0, _ => none
  | fuel + 1, chars =>
    match skipSpace chars with
    | '"' :: rest => do
      let (name, rest) ← readString rest
      match skipSpace rest with
      | ':' :: rest => do
        let (value, rest) ← readValue fuel rest
        match skipSpace rest with
        | ',' :: rest => do
          let (fields, rest) ← readFields fuel rest
          return ((name, value) :: fields, rest)
        | '}' :: rest => return ([(name, value)], rest)
        | _ => none
      | _ => none
    | _ => none

end

/-- The value that a whole text spells, if it is JSON. -/
def ofText? (text : String) : Option Json := do
  let chars := text.toList
  let (value, rest) ← readValue (2 * chars.length + 2) chars
  if skipSpace rest = [] then some value else none

end Json
end SourceMap

import SourceMap.Json.Basic

/-!
# Writing JSON text

Text is written without any spaces, or spread over lines with two spaces for each
level of nesting; an empty array or object is written without a break in either
case. In strings the quote, the backslash and the control characters below U+0020
are escaped and nothing else is. Numbers that are not finite are written as null.

A text has no half of a surrogate pair, so the escapes for those do not arise.
Fields are written in the order in which the value has them, each under its name,
also when two have the same name.
-/

namespace SourceMap
namespace Json

/-- The spacing of JSON text. -/
inductive Spacing where
  | compact
  | indented
deriving DecidableEq, Inhabited

namespace Spacing

/-- The break before an item at a level of nesting. -/
def lineBreak : Spacing → Nat → List Char
  | .compact, _ => []
  | .indented, level => '\n' :: List.replicate (2 * level) ' '

/-- The text between a field name and its value. -/
def colon : Spacing → List Char
  | .compact => [':']
  | .indented => [':', ' ']

end Spacing

/-- A digit of a number written to the base 16, in lower case. -/
def hexDigit (value : Nat) : Char := Nat.digitChar (value % 16)

/-- A character inside a string. -/
def writeChar (char : Char) : List Char :=
  if char = '"' then ['\\', '"']
  else if char = '\\' then ['\\', '\\']
  else if char = '\x08' then ['\\', 'b']
  else if char = '\t' then ['\\', 't']
  else if char = '\n' then ['\\', 'n']
  else if char = '\x0c' then ['\\', 'f']
  else if char = '\r' then ['\\', 'r']
  else if char.toNat < 0x20 then
    ['\\', 'u', '0', '0', hexDigit (char.toNat / 16), hexDigit char.toNat]
  else [char]

/-- A string with its quotes. -/
def writeString (value : String) : List Char :=
  '"' :: value.toList.flatMap writeChar ++ ['"']

/-- A number. -/
def writeNumber (value : Number) : List Char :=
  match value with
  | .finite _ => value.chars
  | _ => "null".toList

mutual

/-- A value that stands at a level of nesting. -/
def write (spacing : Spacing) (level : Nat) : Json → List Char
  | .null => "null".toList
  | .bool value => if value then "true".toList else "false".toList
  | .number value => writeNumber value
  | .string value => writeString value
  | .array [] => ['[', ']']
  | .array (item :: rest) =>
    '[' :: spacing.lineBreak (level + 1) ++ write spacing (level + 1) item ++
      writeItems spacing (level + 1) rest ++ spacing.lineBreak level ++ [']']
  | .object [] => ['{', '}']
  | .object ((name, value) :: rest) =>
    '{' :: spacing.lineBreak (level + 1) ++ writeString name ++ spacing.colon ++
      write spacing (level + 1) value ++
      writeFields spacing (level + 1) rest ++ spacing.lineBreak level ++ ['}']

/-- The items of an array after its first. -/
def writeItems (spacing : Spacing) (level : Nat) : List Json → List Char
  | [] => []
  | item :: rest =>
    ',' :: spacing.lineBreak level ++ write spacing level item ++ writeItems spacing level rest

/-- The fields of an object after its first. -/
def writeFields (spacing : Spacing) (level : Nat) : List (String × Json) → List Char
  | [] => []
  | (name, value) :: rest =>
    ',' :: spacing.lineBreak level ++ writeString name ++ spacing.colon ++
      write spacing level value ++ writeFields spacing level rest

end

/-- The JSON text of a value. -/
def text (spacing : Spacing) (value : Json) : String := String.ofList (write spacing 0 value)

end Json
end SourceMap

import SourceMap.Number.Text
import SourceMap.Number.Numeral

/-!
# JSON values

A value keeps the fields of an object in order. `Fields.arrange` states the order
in which an object's fields are enumerated: field names that spell an index come
first, by their index, and all others follow in the order in which they were
given. `Fields.put` sets a field: a name that is already there keeps its place.

Strings are texts of whole characters. Half of a surrogate pair on its own is no
character, so a value that holds one is outside of this type, and reading JSON
text puts another character in its place. A value is also what a caller hands in
for a coordinate or a name, and `Json.plain` is how a message quotes it.
-/

namespace SourceMap

/-- A JSON value. Its numbers include the infinities, which numerals too large
to be finite denote, and the undefined number. -/
inductive Json where
  | null
  | bool (value : Bool)
  | number (value : Number)
  | string (value : String)
  | array (items : List Json)
  | object (fields : List (String × Json))
deriving Inhabited

namespace Fields

variable {α : Type}

/-- The greatest index that a field name can spell. -/
def greatestIndex : Nat := 4294967294

/-- The index that a field name spells: decimal digits without a leading zero,
up to the greatest index. -/
def index? (name : String) : Option Nat :=
  let digits := name.toList
  let value := Numeral.natOf 10 digits
  if digits.all Char.isDigit ∧ Nat.toDigits 10 value = digits ∧ value ≤ greatestIndex then
    some value
  else none

/-- The fields whose name spells an index, each with it. -/
def indexed (fields : List (String × α)) : List (Nat × (String × α)) :=
  fields.filterMap fun field => (index? field.1).map (·, field)

/-- The fields in the order of enumeration. -/
def arrange (fields : List (String × α)) : List (String × α) :=
  ((indexed fields).mergeSort fun left right => decide (left.1 ≤ right.1)).map (·.2) ++
    fields.filter fun field => (index? field.1).isNone

/-- Set a field; the last setting of a name wins and the first one fixes its
place. -/
def put (fields : List (String × α)) (name : String) (value : α) : List (String × α) :=
  if fields.any (·.1 == name) then
    fields.map fun field => if field.1 == name then (name, value) else field
  else fields ++ [(name, value)]

/-- The value of a field. -/
def get? (fields : List (String × α)) (name : String) : Option α := fields.lookup name

end Fields

namespace Json

/-- An object whose fields are set one after the other. -/
def ofFields (fields : List (String × Json)) : Json :=
  .object (Fields.arrange (fields.foldl (fun placed field => Fields.put placed field.1 field.2) []))

mutual

/-- How a value is shown inside a message: strings and numbers plainly, arrays
as their items between commas, objects by a fixed text. An object that has a
field of the name under which its text is asked for cannot be shown, and neither
can an array that holds one. -/
def plain : Json → Option String
  | .null => some "null"
  | .bool value => some (if value then "true" else "false")
  | .number value => some value.text
  | .string value => some value
  | .array items => (plainItems items).map (String.intercalate ",")
  | .object fields =>
    if fields.any fun field => field.1 == "toString" then none else some "[object Object]"

/-- How the items of an array are shown; a null shows as nothing. -/
def plainItems : List Json → Option (List String)
  | [] => some []
  | .null :: rest => (plainItems rest).map ("" :: ·)
  | item :: rest => do
    let first ← item.plain
    let others ← plainItems rest
    return first :: others

end

/-- How a value that may be missing is shown inside a message. -/
def plainOptional : Option Json → Option String
  | none => some "undefined"
  | some value => value.plain

/-- The field of an object; other values have none. -/
def field? (value : Json) (name : String) : Option Json :=
  match value with
  | .object fields => Fields.get? fields name
  | _ => none

/-- The number that a value is. -/
def number? : Json → Option Number
  | .number value => some value
  | _ => none

/-- The string that a value is. -/
def string? : Json → Option String
  | .string value => some value
  | _ => none

/-- The array that a value is. -/
def items? : Json → Option (List Json)
  | .array items => some items
  | _ => none

end Json
end SourceMap

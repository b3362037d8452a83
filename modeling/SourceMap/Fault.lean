import SourceMap.Coordinate
import SourceMap.Json.Writer
import SourceMap.Text.Units

/-!
# Faults

What can be wrong with a source map, as causes. A fault ends the call that meets
it. Its wording is the business of `Fault.message` alone; a fault in a mappings
text also says where the segment stands, as far as that is known.

Five kinds have a code and are about source maps. The other three are about a
call: a number that no digits stand for, a value that the message of a fault
cannot quote, and an entry that a table of plain names does not have. The last one
is met only by runs among plain names, which end there and say nothing about what
follows; among optional names nothing ends with it.
-/

namespace SourceMap

/-- Where in a mappings text a segment stands; lines and segments count from
zero. -/
structure Location where
  line : Option Number := none
  segment : Option Number := none
  token : Option String := none
deriving DecidableEq, Inhabited

/-- What is wrong with a run of VLQ digits. -/
inductive VlqDefect where
  /-- There is no digit at all. -/
  | empty
  /-- The run ends after a digit that announces another one. -/
  | incomplete
  /-- A character is no digit. -/
  | invalidCharacter (char : Char)
  /-- The value is too great. -/
  | tooLarge
deriving DecidableEq, Inhabited

/-- What is wrong with a segment whose digits are sound. -/
inductive SegmentDefect where
  | fieldCount (found : Nat)
  | negativeGeneratedColumn (column : Number)
  | negativeOriginalLine (line : Number)
  | negativeOriginalColumn (column : Number)
deriving DecidableEq, Inhabited

/-- The tables that a segment points into. -/
inductive Table where
  | sources
  | names
deriving DecidableEq, Inhabited

/-- The parts of a generated position. -/
inductive TargetField where
  | line
  | column
  | name
deriving DecidableEq, Inhabited

/-- What an invalid coordinate or name is part of. -/
inductive Place where
  /-- The key of an original line. -/
  | line (source : String) (line : Number)
  /-- The key of an original column. -/
  | column (source : String) (line column : Number)
  /-- A field of the generated position of the given number at an original
  location. -/
  | target (source : String) (line column : Number) (number : Nat) (field : TargetField)
  /-- The number of lines of the generated file. -/
  | lineCount
deriving DecidableEq, Inhabited

/-- What is wrong with a part of an index. -/
inductive PlaceDefect where
  /-- The value found, if any, is no coordinate. -/
  | notCoordinate (found : Option Json)
  /-- A name is not a string. -/
  | notString
deriving Inhabited

/-- What is wrong with a source map document. -/
inductive DocumentDefect where
  | notJson
  | notObject
  | version (found : Option Json)
  | file
  | sources
  | names
  | mappings
  | sourceRoot
  | sourcesContent
  | lineCount
  /-- The source asked for is not there. -/
  | missingSource (source : String)
  /-- One source is expected and others are found. -/
  | notSingleSource (found : List String)
deriving Inhabited

/-- Everything that can be wrong. -/
inductive Fault where
  /-- A run of digits is malformed; it has a location when it is part of a
  mappings text. -/
  | malformedVlq (defect : VlqDefect) (location : Option Location)
  | malformedSegment (defect : SegmentDefect) (location : Location)
  | indexOutOfRange (table : Table) (index : Number) (size : Nat) (location : Location)
  | invalidPosition (place : Place) (defect : PlaceDefect)
  | invalidDocument (defect : DocumentDefect)
  /-- A number that no run of digits stands for; only a direct request can meet
  it. -/
  | unencodable (value : Number)
  /-- A value that a message was to show cannot be shown. -/
  | unprintable
  /-- A segment points to a source that is missing from its table, and only a
  name can be a key. -/
  | missingEntry
deriving Inhabited

/-- The parts of a location that are known, in brackets after a space. -/
def Location.describe (location : Location) : String :=
  let parts :=
    (location.line.map fun line => "generated line " ++ line.text).toList ++
    (location.segment.map fun segment => "segment " ++ segment.text).toList ++
    (location.token.map fun token => "\"" ++ token ++ "\"").toList
  if parts.isEmpty then "" else " (" ++ String.intercalate ", " parts ++ ")"

/-- The wording of a defect in a run of digits. -/
def VlqDefect.reason : VlqDefect → String
  | .empty => "empty VLQ value"
  | .incomplete => "incomplete VLQ continuation"
  | .invalidCharacter char =>
    "invalid base64 VLQ character \"" ++ (Units.leading char).toString ++ "\""
  | .tooLarge => "VLQ value exceeds the safe integer range"

/-- The wording of a defect in a segment. -/
def SegmentDefect.reason : SegmentDefect → String
  | .fieldCount found => "expected 4 or 5 fields, found " ++ toString found
  | .negativeGeneratedColumn column => "negative generated column " ++ column.text
  | .negativeOriginalLine line => "negative original line " ++ line.text
  | .negativeOriginalColumn column => "negative original column " ++ column.text

/-- How a table is called. -/
def Table.label : Table → String
  | .sources => "sources"
  | .names => "names"

/-- How a part of a generated position is called. -/
def TargetField.label : TargetField → String
  | .line => "generatedLine"
  | .column => "generatedColumn"
  | .name => "name"

/-- The path that leads to a place. -/
def Place.path : Place → String
  | .line source atLine => source ++ ":" ++ atLine.text
  | .column source atLine atColumn => source ++ ":" ++ atLine.text ++ ":" ++ atColumn.text
  | .target source atLine atColumn number field =>
    source ++ ":" ++ atLine.text ++ ":" ++ atColumn.text ++
      "[" ++ toString number ++ "]." ++ field.label
  | .lineCount => "lineCount"

/-- The wording of a defect in an index. -/
def PlaceDefect.reason : PlaceDefect → String
  | .notCoordinate found =>
    "expected a non-negative integer no greater than " ++ toString Coordinate.greatest ++
      ", got " ++ (Json.plainOptional found).getD ""
  | .notString => "expected a string"

/-- The wording of a defect in a document. -/
def DocumentDefect.reason : DocumentDefect → String
  | .notJson => "Source map is not valid JSON"
  | .notObject => "Source map must be a JSON object"
  | .version found =>
    "Unsupported source map version " ++ (found.map (Json.text .compact)).getD "undefined" ++
      ", expected 3"
  | .file => "\"file\" must be a string"
  | .sources => "\"sources\" must be an array of strings"
  | .names => "\"names\" must be an array of strings"
  | .mappings => "\"mappings\" must be a string"
  | .sourceRoot => "\"sourceRoot\" must be a string"
  | .sourcesContent => "\"sourcesContent\" must be an array of strings or nulls"
  | .lineCount => "\"lineCount\" must be a non-negative integer"
  | .missingSource source => "Source \"" ++ source ++ "\" is not present in the map"
  | .notSingleSource found =>
    "Expected a map of exactly one source, found " ++ toString found.length ++
      if found.isEmpty then "" else ": " ++ String.intercalate ", " found

namespace Fault

/-- The name of the kind of a fault. -/
def name : Fault → String
  | .malformedVlq .. => "MalformedVlqError"
  | .malformedSegment .. => "MalformedMappingError"
  | .indexOutOfRange .. => "IndexOutOfRangeError"
  | .invalidPosition .. => "InvalidPositionError"
  | .invalidDocument .. => "InvalidSourceMapError"
  | .unencodable _ => "RangeError"
  | .unprintable => "TypeError"
  | .missingEntry => "MissingEntry"

/-- The code of the kind of a fault. A number that cannot be encoded, a value
that cannot be shown and a key that cannot be had have none: they are no faults
of a source map. -/
def code? : Fault → Option String
  | .malformedVlq .. => some "MALFORMED_VLQ"
  | .malformedSegment .. => some "MALFORMED_MAPPING"
  | .indexOutOfRange .. => some "INDEX_OUT_OF_RANGE"
  | .invalidPosition .. => some "INVALID_POSITION"
  | .invalidDocument .. => some "INVALID_SOURCE_MAP"
  | .unencodable _ => none
  | .unprintable => none
  | .missingEntry => none

/-- What is wrong, without the location: for the faults of a mappings text only. -/
def reason? : Fault → Option String
  | .malformedVlq defect _ => some defect.reason
  | .malformedSegment defect _ => some defect.reason
  | _ => none

/-- The location that a fault is reported with. -/
def location : Fault → Location
  | .malformedVlq _ location => location.getD {}
  | .malformedSegment _ location => location
  | .indexOutOfRange _ _ _ location => location
  | _ => {}

/-- A located fault in a run of digits has the unlocated one as its cause. -/
def cause? : Fault → Option Fault
  | .malformedVlq defect (some _) => some (.malformedVlq defect none)
  | _ => none

/-- The message of a fault. -/
def message : Fault → String
  | .malformedVlq defect location => defect.reason ++ (location.getD {}).describe
  | .malformedSegment defect location => defect.reason ++ location.describe
  | .indexOutOfRange table index size location =>
    table.label ++ " index " ++ index.text ++ " is out of range for " ++ toString size ++
      " entries" ++ location.describe
  | .invalidPosition place defect => place.path ++ ": " ++ defect.reason
  | .invalidDocument defect => defect.reason
  | .unencodable value =>
    "Cannot VLQ-encode " ++ value.text ++ ": expected an integer within ±" ++
      toString Coordinate.greatest
  | .unprintable => "Cannot convert object to primitive value"
  | .missingEntry => "A segment points to a source that is missing from its table"

/-- The fault of a value that is no coordinate. Its message shows the value, so
where that cannot be shown this is the fault instead. -/
def ofNotCoordinate (place : Place) (found : Option Json) : Fault :=
  if (Json.plainOptional found).isSome then .invalidPosition place (.notCoordinate found)
  else .unprintable

end Fault
end SourceMap

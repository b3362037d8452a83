import SourceMap.OriginIndex.Placement
import SourceMap.Segment
import SourceMap.Vlq

/-!
# Writing mappings

The placements of an index come in the order of the index and are regrouped by
generated line: each becomes a segment at the end of its line. Lines are made as
they are needed, so one that no placement is on is left empty between two others,
and later lines keep their numbers. Names are numbered by their first use on this
walk, whatever their place in the text will be. Only then is every line sorted by
generated column; segments of one column keep the order of the index.

What is written for the lines are differences to the segment before, on whatever
line it stands. Writing stops at the first difference that no run of digits stands
for.
-/

namespace SourceMap

/-- A mappings text with the tables that its segments point into. -/
structure WrittenMappings (σ : Type := String) where
  text : String
  sources : List σ
  names : List String
deriving DecidableEq

namespace Mappings

/-- What has been collected so far: the segments of every generated line that
has been reached, in the order in which they came, and the numbers of the names,
in the order of first use. -/
structure Collected where
  lines : Array (Array Segment) := #[]
  numbers : List (String × Nat) := []

namespace Collected

/-- Append empty lines until there is one of the given number. -/
def grow (lines : Array (Array Segment)) (line : Nat) : Array (Array Segment) :=
  if lines.size ≤ line then grow (lines.push #[]) line else lines
termination_by line + 1 - lines.size

/-- The number of a name, and the numbers from now on. A name that has none yet
gets the number of names there have been so far. -/
def number (numbers : List (String × Nat)) (name : String) : Nat × List (String × Nat) :=
  match numbers.lookup name with
  | some given => (given, numbers)
  | none => (numbers.length, numbers ++ [(name, numbers.length)])

/-- The number of the name that a placement may have, and the numbers from now
on. -/
def nameIndex (numbers : List (String × Nat)) :
    Option String → Option Nat × List (String × Nat)
  | none => (none, numbers)
  | some name => ((number numbers name).1, (number numbers name).2)

/-- Collect one more placement: number its name, make sure that its line is
there, and put its segment at the end of the line. -/
def add (collected : Collected) (placement : Placement) : Collected :=
  let (nameIndex, numbers) := nameIndex collected.numbers placement.name
  let segment : Segment :=
    { generatedColumn := .ofNat placement.generatedColumn
      sourceIndex := .ofNat placement.source
      originalLine := .ofNat placement.originalLine
      originalColumn := .ofNat placement.originalColumn
      nameIndex := nameIndex.map .ofNat }
  { lines := (grow collected.lines placement.generatedLine).modify placement.generatedLine
      (·.push segment)
    numbers }

/-- The names that have a number, in the order of their numbers. -/
def names (collected : Collected) : List String := collected.numbers.map Prod.fst

end Collected

/-- Collect placements in their order. -/
def collect (placements : List Placement) : Collected := placements.foldl Collected.add {}

/-- The segments of a line by generated column; those of one column stay in
order. -/
def sortLine (segments : Array Segment) : List Segment :=
  segments.toList.mergeSort fun left right =>
    Number.compare? left.generatedColumn right.generatedColumn != some .gt

/-- Write segments one after the other, from a cursor on. -/
def writeSegments : List Segment → Cursor → Except Fault (List (List Char) × Cursor)
  | [], cursor => .ok ([], cursor)
  | segment :: rest, cursor => do
    let (offset, next) := segment.offsetFrom cursor
    let token ← Vlq.encodeRun offset
    let (tokens, last) ← writeSegments rest next
    return (token :: tokens, last)

/-- Write the groups of generated lines one after the other, from a cursor on. -/
def writeLines : List (List Segment) → Cursor → Except Fault (List (List Char))
  | [], _ => .ok []
  | segments :: rest, cursor => do
    let (tokens, last) ← writeSegments segments cursor.newLine
    let groups ← writeLines rest last
    return [','].intercalate tokens :: groups

/-- Write an index as a mappings text with its tables. -/
def write {σ : Type} [DecidableEq σ] [SourceKey σ] (index : OriginIndex σ) :
    Except Fault (WrittenMappings σ) := do
  let placements ← index.placements
  let collected := collect placements
  let groups ← writeLines (collected.lines.toList.map sortLine) .start
  return {
    text := String.ofList ([';'].intercalate groups)
    sources := index.sourceNames
    names := collected.names }

end Mappings
end SourceMap

import SourceMap.SourceKey

/-!
# Segments

A segment of a mappings text ties a generated column to an original location and
perhaps to a name, through indexes into the tables of sources and names. On paper
its fields are differences: a `Cursor` carries the absolute values from one
segment to the next. `Cursor.advance` adds the differences and
`Segment.offsetFrom` takes them; the generated column starts anew on every
generated line and the name index only moves at segments that have a name.

The indexes of a segment are checked against both ends of the tables before
anything is looked up. An undefined index compares with nothing and so passes, but
it points to no entry: the segment then has no name, and its source is the missing
one.
-/

namespace SourceMap

/-- A segment with absolute values. A name index of zero is as good as any
other. -/
structure Segment where
  generatedColumn : Number
  sourceIndex : Number
  originalLine : Number
  originalColumn : Number
  nameIndex : Option Number
deriving DecidableEq, Inhabited

/-- The absolute values that the next segment's differences refer to. -/
structure Cursor where
  generatedColumn : Number
  sourceIndex : Number
  originalLine : Number
  originalColumn : Number
  nameIndex : Number
deriving DecidableEq

/-- A segment with its source and name looked up. -/
structure Resolved (σ : Type := String) where
  generatedColumn : Number
  source : σ
  originalLine : Number
  originalColumn : Number
  name : Option String
deriving DecidableEq

/-- The entry of a table at an index. -/
def entryAt? {α : Type} (entries : List α) (index : Number) : Option α :=
  index.toNat?.bind fun place => entries[place]?

/-- Whether an index is below zero or not below the size of a table. -/
def Number.isOutside (index : Number) (size : Nat) : Bool :=
  index.isNegative || (index.compare? (.ofNat size)).any (· != .lt)

namespace Segment

/-- The entry that an index points to, or the fault of pointing outside the
table. An index that is neither outside nor at a place of the table points to
nothing. -/
def lookUp {α : Type} (table : Table) (entries : List α) (index : Number) (location : Location) :
    Except Fault (Option α) :=
  if index.isOutside entries.length then
    .error (.indexOutOfRange table index entries.length location)
  else .ok (entryAt? entries index)

/-- Refuse a negative coordinate. -/
def refuseNegative (defect : Number → SegmentDefect) (coordinate : Number) (location : Location) :
    Except Fault Unit :=
  if coordinate.isNegative then .error (.malformedSegment (defect coordinate) location)
  else .ok ()

/-- The name that an index points to, if there is an index. -/
def lookUpName (names : List String) (index : Option Number) (location : Location) :
    Except Fault (Option String) :=
  match index with
  | none => .ok none
  | some index => lookUp .names names index location

/-- Look up the source and the name of a segment. Its coordinates must not be
negative; they are looked at before its indexes. -/
def resolve {σ : Type} [SourceKey σ] (segment : Segment) (sources : List σ) (names : List String)
    (location : Location) : Except Fault (Resolved σ) := do
  refuseNegative .negativeGeneratedColumn segment.generatedColumn location
  refuseNegative .negativeOriginalLine segment.originalLine location
  refuseNegative .negativeOriginalColumn segment.originalColumn location
  let found ← lookUp .sources sources segment.sourceIndex location
  let name ← lookUpName names segment.nameIndex location
  let source ← found.elim SourceKey.missing .ok
  return {
    generatedColumn := segment.generatedColumn
    source
    originalLine := segment.originalLine
    originalColumn := segment.originalColumn
    name }

/-- The differences of a segment from a cursor, and the cursor for the next
segment. A segment without a name leaves the name index where it is. -/
def offsetFrom (segment : Segment) (previous : Cursor) : List Number × Cursor :=
  let offset := [
    segment.generatedColumn - previous.generatedColumn,
    segment.sourceIndex - previous.sourceIndex,
    segment.originalLine - previous.originalLine,
    segment.originalColumn - previous.originalColumn]
  (offset ++ (segment.nameIndex.map (· - previous.nameIndex)).toList,
    { generatedColumn := segment.generatedColumn
      sourceIndex := segment.sourceIndex
      originalLine := segment.originalLine
      originalColumn := segment.originalColumn
      nameIndex := segment.nameIndex.getD previous.nameIndex })

end Segment

namespace Cursor

/-- The cursor at the start of a mappings text. -/
def start : Cursor := ⟨0, 0, 0, 0, 0⟩

instance : Inhabited Cursor := ⟨start⟩

/-- The cursor at the start of the next generated line. -/
def newLine (cursor : Cursor) : Cursor := { cursor with generatedColumn := 0 }

/-- The segment that a cursor stands at, with a name index if it is to have one. -/
def segment (cursor : Cursor) (named : Bool) : Segment where
  generatedColumn := cursor.generatedColumn
  sourceIndex := cursor.sourceIndex
  originalLine := cursor.originalLine
  originalColumn := cursor.originalColumn
  nameIndex := if named then some cursor.nameIndex else none

/-- The cursor after a segment of the given differences, and the segment itself.
A segment has four fields, or five with a name. -/
def advance (previous : Cursor) (offset : List Number) (location : Location) :
    Except Fault (Segment × Cursor) :=
  let moved (generatedColumn sourceIndex originalLine originalColumn : Number) : Cursor :=
    { generatedColumn := previous.generatedColumn + generatedColumn
      sourceIndex := previous.sourceIndex + sourceIndex
      originalLine := previous.originalLine + originalLine
      originalColumn := previous.originalColumn + originalColumn
      nameIndex := previous.nameIndex }
  match offset with
  | [generatedColumn, sourceIndex, originalLine, originalColumn] =>
    let cursor := moved generatedColumn sourceIndex originalLine originalColumn
    .ok (cursor.segment false, cursor)
  | [generatedColumn, sourceIndex, originalLine, originalColumn, nameIndex] =>
    let cursor := { moved generatedColumn sourceIndex originalLine originalColumn with
      nameIndex := previous.nameIndex + nameIndex }
    .ok (cursor.segment true, cursor)
  | _ => .error (.malformedSegment (.fieldCount offset.length) location)

/-- Advance by the given differences and look up what the segment points to. -/
def step {σ : Type} [SourceKey σ] (previous : Cursor) (offset : List Number) (sources : List σ)
    (names : List String) (location : Location) : Except Fault (Resolved σ × Cursor) := do
  let (segment, cursor) ← previous.advance offset location
  let resolved ← segment.resolve sources names location
  return (resolved, cursor)

end Cursor
end SourceMap

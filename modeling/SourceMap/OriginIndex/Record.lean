import SourceMap.OriginIndex.Basic

/-!
# Records of origins

The plain form of an index: fields within fields, from source names to written
line numbers to written column numbers to targets. Enumerating a record follows
the order of its fields, where names that spell an index come first. Two names of
one number fall together in the index; their targets are joined in the order of
enumeration. One name is reserved: setting a field of that name leaves a record as
it is, so a source of that name is not in the record of an index.

Only an index whose keys are plain names has a record, since a field has a name.
In the other direction a record gives an index under either kind of keys.
-/

namespace SourceMap

/-- The plain form of the lines of one source. -/
abbrev LineRecord := List (String × List (String × List Target))

/-- The plain form of an index. -/
abbrev OriginRecord := List (String × LineRecord)

namespace LineTable

/-- The lines that a record describes. -/
def ofRecord (record : LineRecord) : LineTable :=
  (Fields.arrange record).foldl
    (fun lines (line, columns) =>
      (Fields.arrange columns).foldl
        (fun lines (column, targets) => lines.append (.ofKey line) (.ofKey column) targets)
        lines)
    .empty

/-- The record of lines, its fields in the order of enumeration. -/
def toRecord (lines : LineTable) : LineRecord :=
  Fields.arrange <| lines.entries.map fun (line, columns) =>
    (line.text, Fields.arrange <| columns.entries.map fun (column, targets) =>
      (column.text, targets))

end LineTable

namespace OriginIndex

/-- The index that a record describes, under a list of sources or else in the
order of enumeration. -/
def ofRecord {σ : Type} [DecidableEq σ] [SourceKey σ] (record : OriginRecord)
    (order : Option (List σ)) : OriginIndex σ :=
  let fields := Fields.arrange record
  fields.foldl (fun index (source, lines) =>
      index.setLines (SourceKey.ofName source) (.ofRecord lines))
    (.empty (order.getD (fields.map fun field => SourceKey.ofName field.1)))

/-- The name under which no field of a record can be set. -/
def reservedSource : String := "__proto__"

/-- The record of an index, its fields in the order of enumeration. -/
def toRecord (index : OriginIndex) : OriginRecord :=
  let entries := index.sources.entries.filter fun (source, _) => source ≠ reservedSource
  Fields.arrange <| entries.map fun (source, lines) => (source, lines.toRecord)

end OriginIndex
end SourceMap

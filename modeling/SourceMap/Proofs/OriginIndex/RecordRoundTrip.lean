import SourceMap.Proofs.Number.Digits
import SourceMap.Proofs.OriginIndex.Additions
import SourceMap.Proofs.OriginIndex.Ranking
import SourceMap.Proofs.OriginIndex.Records
import SourceMap.Proofs.Segment

/-!
# Records of indexes

The record of an index writes its lines and columns as texts and enumerates its
fields in an order of its own. Reading it leads back to the index: a coordinate is
the only number that its text spells, so each list of targets comes back to its
place, and the order of a sound table is determined by what is stored in it. A
line that has no column would be lost, but no index that was built has one.

What does not come back by itself is the order of the sources. Field names that
spell an index are enumerated first, so a record does not tell in which order its
sources were. Read under the list of the sources of the index, they are in that
order again. A source of the reserved name has no field and is the one source that
a record loses.
-/

namespace SourceMap

/-- A coordinate is read from its text. -/
theorem Number.IsCoordinate.ofKey_text {number : Number} (coordinate : number.IsCoordinate) :
    ofKey number.text = number := by
  obtain ⟨value, bounded, rfl⟩ := coordinate
  have exact : value ≤ exactBound := by
    rw [Coordinate.greatest_eq] at bounded
    unfold exactBound
    omega
  exact ofKey_text_ofNat exact

/-- Fields written for entries under coordinates, each of which has one entry.
Of those that are enumerated the field of the entry of a number is the only one
whose name spells the number. -/
theorem OrderedMap.filter_arrange_text {α β : Type} {map : OrderedMap Number.compare? α}
    (inRange : ∀ key ∈ map.keys, key.IsCoordinate) (change : α → β) {fields : List (String × β)}
    (written : fields.Perm (map.entries.map fun entry => (entry.1.text, change entry.2)))
    (number : Number) :
    (Fields.arrange fields).filter (fun field => Number.ofKey field.1 = number) =
      ((map.get? number).map fun value => (number.text, change value)).toList := by
  have spells : ∀ entry ∈ map.entries,
      decide (Number.ofKey entry.1.text = number) = decide (entry.1 = number) := by
    intro entry member
    rw [(inRange entry.1 (List.mem_map_of_mem member)).ofKey_text]
  have perm := ((Fields.arrange_perm fields).trans written).filter fun field =>
    Number.ofKey field.1 = number
  rw [List.filter_map, Function.comp_def, List.filter_congr spells, filter_key] at perm
  cases found : map.get? number with
  | none => simpa [found] using perm
  | some value => simpa [found] using perm

/-- The record of columns, its fields in the order of enumeration. -/
def ColumnTable.toRecord (columns : ColumnTable) : List (String × List Target) :=
  Fields.arrange <| columns.entries.map fun entry => (entry.1.text, entry.2)

/-- The record of columns has a field for each of them. -/
theorem ColumnTable.toRecord_perm (columns : ColumnTable) :
    columns.toRecord.Perm (columns.entries.map fun entry => (entry.1.text, entry.2)) :=
  Fields.arrange_perm _

namespace LineTable

/-- The record of lines has a field for each of them, with the record of its
columns. -/
theorem toRecord_perm (lines : LineTable) :
    lines.toRecord.Perm
      (lines.entries.map fun entry => (entry.1.text, ColumnTable.toRecord entry.2)) :=
  Fields.arrange_perm _

/-- Whether all keys of a table of lines and of its tables of columns are
coordinates. -/
@[mk_iff] structure InRange (lines : LineTable) : Prop where
  lineKeys : ∀ line ∈ lines.keys, line.IsCoordinate
  columnKeys : ∀ columns ∈ lines.values, ∀ column ∈ OrderedMap.keys columns, column.IsCoordinate

instance (lines : LineTable) : Decidable lines.InRange :=
  decidable_of_iff _ (inRange_iff lines).symm

/-- A table of coordinates has no undefined keys. -/
theorem InRange.defined {lines : LineTable} (inRange : lines.InRange) : lines.Defined where
  lineKeys := fun line member => (inRange.lineKeys line member).ne_nan
  columnKeys := fun columns listed column member =>
    (inRange.columnKeys columns listed column member).ne_nan

/-- The record of a sound table of coordinates has at each place the list that
is stored there, and nowhere else any list. -/
theorem Sound.listsAt_toRecord {lines : LineTable} (sound : lines.Sound) (inRange : lines.InRange)
    (line column : Number) :
    lines.toRecord.listsAt line column = (lines.stored? line column).toList := by
  rw [LineRecord.listsAt, OrderedMap.filter_arrange_text inRange.lineKeys
    ColumnTable.toRecord lines.toRecord_perm, stored?]
  cases found : lines.get? line with
  | none => rfl
  | some columns =>
    have listed : columns ∈ lines.values := OrderedMap.mem_values_of_get? found
    have columnsSound : ColumnTable.Sound columns := (sound.values columns listed).1
    have chosen := OrderedMap.filter_arrange_text (inRange.columnKeys columns listed) id
      columns.toRecord_perm column
    simp only [Option.map_some, Option.toList_some, List.flatMap_singleton, Option.bind_some]
    rw [chosen]
    cases columns.get? column <;> rfl

/-- A sound table of coordinates is read from its record. -/
theorem Sound.ofRecord_toRecord_eq {lines : LineTable} (sound : lines.Sound)
    (inRange : lines.InRange) : ofRecord lines.toRecord = lines := by
  refine (sound.eq_of_stored?_eq (sound_ofRecord lines.toRecord) inRange.defined ?_).symm
  intro line column
  rw [stored?_ofRecord, sound.listsAt_toRecord inRange]
  cases lines.stored? line column <;> simp

end LineTable

namespace OriginIndex

variable {index : OriginIndex}

/-- Whether all lines and columns of an index are coordinates. -/
def InRange (index : OriginIndex) : Prop := ∀ lines ∈ index.sources.values, lines.InRange

instance (index : OriginIndex) : Decidable index.InRange :=
  inferInstanceAs (Decidable (∀ lines ∈ index.sources.values, lines.InRange))

/-- The record of an index has its sources, each with the record of its lines,
if none of them has the reserved name. -/
theorem toRecord_perm (settable : reservedSource ∉ index.sourceNames) :
    index.toRecord.Perm (index.sources.entries.map fun entry => (entry.1, entry.2.toRecord)) := by
  have all : (index.sources.entries.filter fun entry => entry.1 ≠ reservedSource) =
      index.sources.entries := by
    rw [List.filter_eq_self]
    intro entry member
    have named : entry.1 ∈ index.sourceNames := List.mem_map_of_mem member
    exact decide_eq_true fun same => settable (same ▸ named)
  have written : index.toRecord = Fields.arrange
      ((index.sources.entries.filter fun entry => entry.1 ≠ reservedSource).map
        fun entry => (entry.1, entry.2.toRecord)) := rfl
  rw [written, all]
  exact Fields.arrange_perm _

/-- The sources that are read from the record of a sound index of coordinates
are those of the index, with their lines. -/
theorem Sound.entries_ofRecord_toRecord_perm (sound : index.Sound) (inRange : index.InRange)
    (settable : reservedSource ∉ index.sourceNames) (order : Option (List String)) :
    (ofRecord index.toRecord order).sources.entries.Perm index.sources.entries := by
  have written := toRecord_perm settable
  have distinct : (index.toRecord.map Prod.fst).Nodup := by
    rw [(written.map Prod.fst).nodup_iff, List.map_map]
    exact index.nodup_sourceNames
  have lines : ∀ entry ∈ index.sources.entries,
      (entry.1, LineTable.ofRecord entry.2.toRecord) = entry := by
    intro entry member
    have listed : entry.2 ∈ index.sources.values := List.mem_map_of_mem member
    rw [(sound.values entry.2 listed).ofRecord_toRecord_eq (inRange entry.2 listed)]
  have read := (entries_ofRecord_perm distinct order).trans (written.map _)
  rw [List.map_map] at read
  exact read.trans (List.Perm.of_eq ((List.map_congr_left lines).trans (List.map_id _)))

/-- The sources of an index are ranked under the list of their names. -/
theorem ascending_under_sourceNames (index : OriginIndex) :
    OrderedMap.Ascending (compareSources index.sourceNames) index.sources.entries := by
  have ranked := ranked_eraseDups index.sourceNames
  rw [eraseDups_of_nodup index.nodup_sourceNames] at ranked
  have apart := index.nodup_sourceNames
  exact List.pairwise_map.mp (apart.and ranked)

/-- Two names of sources spell indexes, a third one has no lines; a column holds
an empty list, and another one is the greatest coordinate. -/
def numberedIndex : OriginIndex :=
  ((((OriginIndex.empty ["b.js"]).append "2" 7 4503599627370495
    [.placed 0 5 (some "n"), .placed 0 6 none]).append "10" 10 2 []).append "10" 9 0
      [.placed 1 1 none]).includeSource "b.js"

end OriginIndex
end SourceMap

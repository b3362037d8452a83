import SourceMap.Proofs.Json.Fields
import SourceMap.Proofs.OriginIndex.Listing

/-!
# Indexes of records

A record names lines and columns by texts, and several texts may spell one number.
Reading a record goes through its lists of targets in the order of enumeration and
appends each list where the two texts above it lead. So lists under texts of the
same numbers are joined, whichever lines of the record they stand in, and none of
their targets is lost.

A batch is a list of targets with the numbers that its two texts spell; a record
of lines is the list of its batches, and reading it appends them one by one. A
text that is no numeral spells the undefined number, and batches of that number
are joined like others: nothing here needs an order of keys. The sources of a
record are fields of one object, so their names differ.
-/

namespace SourceMap

/-- A list of targets with the line and the column that it belongs to. -/
structure Batch where
  line : Number
  column : Number
  targets : List Target

namespace Batch

/-- Whether a batch belongs to a line and a column. -/
def isAt (line column : Number) (batch : Batch) : Bool :=
  decide (batch.line = line ∧ batch.column = column)

/-- The lists of the batches at a line and a column, in their order. -/
def listsAt (batches : List Batch) (line column : Number) : List (List Target) :=
  (batches.filter (isAt line column)).map targets

/-- Selecting by line and column takes the first batch or leaves it. -/
theorem listsAt_cons (batch : Batch) (rest : List Batch) (line column : Number) :
    listsAt (batch :: rest) line column =
      if line = batch.line ∧ column = batch.column then
        batch.targets :: listsAt rest line column
      else listsAt rest line column := by
  by_cases here : line = batch.line ∧ column = batch.column
  · obtain ⟨rfl, rfl⟩ := here
    simp [listsAt, isAt]
  · have elsewhere : ¬(batch.line = line ∧ batch.column = column) := fun same =>
      here ⟨same.1.symm, same.2.symm⟩
    simp [listsAt, isAt, here, elsewhere]

end Batch

namespace LineTable

/-- Append a batch where it belongs. -/
def appendBatch (lines : LineTable) (batch : Batch) : LineTable :=
  lines.append batch.line batch.column batch.targets

/-- Appending batches joins the lists at each place, behind what was there. A
place without a batch keeps what it had; a place whose batches are all empty has
an empty list. -/
theorem stored?_foldl_appendBatch (batches : List Batch) (lines : LineTable)
    (line column : Number) :
    (batches.foldl appendBatch lines).stored? line column =
      if Batch.listsAt batches line column = [] then lines.stored? line column
      else some (lines.targetsAt line column ++ (Batch.listsAt batches line column).flatten) := by
  induction batches generalizing lines with
  | nil => rfl
  | cons batch rest inductionHypothesis =>
    rw [List.foldl_cons, inductionHypothesis, targetsAt_eq, appendBatch, stored?_append,
      Batch.listsAt_cons]
    by_cases here : line = batch.line ∧ column = batch.column
    · obtain ⟨rfl, rfl⟩ := here
      by_cases last : Batch.listsAt rest batch.line batch.column = []
      · simp [last]
      · simp [last]
    · simp [here, targetsAt_eq]

/-- Appending batches adds all of their targets. -/
theorem length_mappings_foldl_appendBatch (lines : LineTable) (batches : List Batch)
    (source : String) :
    ((batches.foldl appendBatch lines).mappings source).length =
      (lines.mappings source).length + (batches.flatMap Batch.targets).length := by
  induction batches generalizing lines with
  | nil => simp
  | cons batch rest inductionHypothesis =>
    have appended := lines.mappings_append_perm source batch.line batch.column batch.targets
    have later := inductionHypothesis (lines.append batch.line batch.column batch.targets)
    rw [appended.length_eq, List.length_append, List.length_map] at later
    rw [List.foldl_cons, List.flatMap_cons, List.length_append, ← Nat.add_assoc,
      Nat.add_comm (lines.mappings source).length]
    exact later

end LineTable

namespace LineRecord

/-- The batches of a record in the order of enumeration. -/
def batches (record : LineRecord) : List Batch :=
  (Fields.arrange record).flatMap fun line =>
    (Fields.arrange line.2).map fun column => ⟨.ofKey line.1, .ofKey column.1, column.2⟩

/-- The lists of a record under texts that spell a line and a column, in the
order of enumeration. -/
def listsAt (record : LineRecord) (line column : Number) : List (List Target) :=
  ((Fields.arrange record).filter fun field => Number.ofKey field.1 = line).flatMap fun field =>
    ((Fields.arrange field.2).filter fun inner => Number.ofKey inner.1 = column).map Prod.snd

/-- The lists at a line and a column are those of the batches there. -/
theorem listsAt_batches (record : LineRecord) (line column : Number) :
    Batch.listsAt record.batches line column = record.listsAt line column := by
  rw [Batch.listsAt, batches, listsAt, List.filter_flatMap, List.map_flatMap]
  induction Fields.arrange record with
  | nil => rfl
  | cons field rest inductionHypothesis =>
    rw [List.flatMap_cons, inductionHypothesis, List.filter_cons]
    by_cases same : Number.ofKey field.1 = line
    · simp [same, Batch.isAt, List.filter_map, Function.comp_def]
    · simp [same, Batch.isAt, List.filter_map, Function.comp_def]

/-- How many targets a record holds. -/
def count (record : LineRecord) : Nat :=
  (record.map fun line => (line.2.map fun column => column.2.length).sum).sum

/-- The batches of a record hold all of its targets. -/
theorem length_flatMap_batches (record : LineRecord) :
    (record.batches.flatMap Batch.targets).length = record.count := by
  have columns (fields : List (String × List Target)) :
      ((Fields.arrange fields).map fun column => column.2.length).sum =
        (fields.map fun column => column.2.length).sum :=
    ((Fields.arrange_perm fields).map _).sum_eq
  simp only [batches, List.flatMap_assoc, List.flatMap_map, List.length_flatMap, columns]
  exact ((Fields.arrange_perm record).map _).sum_eq

end LineRecord

namespace LineTable

/-- Reading a record appends its batches. -/
theorem ofRecord_eq (record : LineRecord) :
    ofRecord record = record.batches.foldl appendBatch .empty := by
  simp only [ofRecord, LineRecord.batches, List.foldl_flatMap, List.foldl_map]
  rfl

/-- A record stores at each place its lists there, one after the other. -/
theorem stored?_ofRecord (record : LineRecord) (line column : Number) :
    (ofRecord record).stored? line column =
      if record.listsAt line column = [] then none
      else some (record.listsAt line column).flatten := by
  rw [ofRecord_eq, stored?_foldl_appendBatch, LineRecord.listsAt_batches]
  rfl

/-- No target of a record is lost. -/
theorem length_mappings_ofRecord (record : LineRecord) (source : String) :
    ((ofRecord record).mappings source).length = record.count := by
  have appended := length_mappings_foldl_appendBatch .empty record.batches source
  rw [ofRecord_eq, appended, LineRecord.length_flatMap_batches]
  exact Nat.zero_add _

end LineTable

namespace OriginRecord

/-- The lists of a record under a source and under texts that spell a line and a
column, in the order of enumeration. -/
def listsAt (record : OriginRecord) (source : String) (line column : Number) :
    List (List Target) :=
  ((Fields.get? record source).map fun lines => LineRecord.listsAt lines line column).getD []

/-- How many targets a record holds. -/
def count (record : OriginRecord) : Nat :=
  (record.map fun source => LineRecord.count source.2).sum

end OriginRecord

namespace OriginIndex

variable {record : OriginRecord}

/-- Reading a record under a list of sources sets the lines of each of its
sources. -/
theorem ofRecord_eq (record : OriginRecord) (order : Option (List String)) :
    ofRecord record order =
      ⟨order.getD ((Fields.arrange record).map Prod.fst),
        (Fields.arrange record).foldl
          (fun built field => built.insert field.1 (LineTable.ofRecord field.2)) .empty⟩ := by
  rw [ofRecord, empty]
  generalize Fields.arrange record = fields
  generalize order.getD (fields.map Prod.fst) = listed
  generalize (OrderedMap.empty : OrderedMap (compareSources listed) LineTable) = built
  induction fields generalizing built with
  | nil => rfl
  | cons field rest inductionHypothesis => exact inductionHypothesis _

/-- The sources of an index of a record are those of the record, with the lines
described there. -/
theorem entries_ofRecord_perm (distinct : (record.map Prod.fst).Nodup)
    (order : Option (List String)) :
    (ofRecord record order).sources.entries.Perm
      (record.map fun field => (field.1, LineTable.ofRecord field.2)) := by
  rw [ofRecord_eq]
  exact (OrderedMap.entries_foldl_insert_perm LineTable.ofRecord
    (Fields.nodup_arrange distinct)).trans ((Fields.arrange_perm record).map _)

/-- A source of an index of a record has the lines that the record describes for
it. -/
theorem lines?_ofRecord (distinct : (record.map Prod.fst).Nodup) (order : Option (List String))
    (source : String) :
    (ofRecord record order).lines? source = (Fields.get? record source).map LineTable.ofRecord := by
  have arrangedDistinct := Fields.nodup_arrange distinct
  rw [ofRecord_eq, lines?, OrderedMap.get?_foldl_insert _ _ arrangedDistinct,
    OrderedMap.lookup_eq_of_perm (Fields.arrange_perm record) arrangedDistinct,
    OrderedMap.get?_empty, Option.or_none, Fields.get?]

/-- An index of a record stores at each origin the lists that the record has
there, one after the other, and nothing where it has none. -/
theorem stored?_ofRecord (distinct : (record.map Prod.fst).Nodup) (order : Option (List String))
    (source : String) (line column : Number) :
    (ofRecord record order).stored? source line column =
      if record.listsAt source line column = [] then none
      else some (record.listsAt source line column).flatten := by
  rw [stored?, lines?_ofRecord distinct, OriginRecord.listsAt]
  cases Fields.get? record source with
  | none => rfl
  | some lines => exact LineTable.stored?_ofRecord lines line column

/-- No target of a record is lost. -/
theorem count_ofRecord (distinct : (record.map Prod.fst).Nodup) (order : Option (List String)) :
    (ofRecord record order).count = record.count := by
  have perm := (entries_ofRecord_perm distinct order).flatMap_right
    fun entry => entry.2.mappings entry.1
  rw [count_eq, mappings, perm.length_eq, List.flatMap_map, List.length_flatMap]
  simp only [LineTable.length_mappings_ofRecord]
  rfl

/-- The index of a record whose sources are distinct, under any list of sources
or under that of the record. At every origin it has the targets of all lists of
the record whose source is the one asked for and whose texts spell the line and
the column asked for, joined in the order of enumeration; where there are no
such lists, nothing is stored. Its sources are those of the record, and it has
as many targets as all lists of the record together.

Nothing is assumed about the texts for lines and columns: they may repeat,
differ in blanks or zeros only, or spell no number. In the last case they all
belong to the undefined number. -/
theorem ofRecord_pointwise (distinct : (record.map Prod.fst).Nodup) (order : Option (List String)) :
    (∀ source line column, (ofRecord record order).targetsAt source line column =
      (record.listsAt source line column).flatten) ∧
    (∀ source line column, (ofRecord record order).stored? source line column = none ↔
      record.listsAt source line column = []) ∧
    (∀ source, source ∈ (ofRecord record order).sourceNames ↔ source ∈ record.map Prod.fst) ∧
    (ofRecord record order).count = record.count := by
  have stored := stored?_ofRecord distinct order
  refine ⟨fun source line column => ?_, fun source line column => ?_, fun source => ?_,
    count_ofRecord distinct order⟩
  · rw [targetsAt_eq, stored]
    by_cases nothing : record.listsAt source line column = [] <;> simp [nothing]
  · rw [stored]
    by_cases nothing : record.listsAt source line column = [] <;> simp [nothing]
  · have names := (entries_ofRecord_perm distinct order).map Prod.fst
    rw [List.map_map] at names
    exact names.mem_iff

/-- In one source three texts of two lines spell seven, and the text that spells
an index is enumerated first; in another source no text spells a number. -/
def spelledRecord : OriginRecord :=
  [("b.js", [("007", [(" 7 ", [.placed 0 0 none]), ("", [.placed 0 1 none])]),
      ("7", [("0x7", [.placed 0 2 (some "n")]), ("7.0", []), ("7", [.placed 0 3 none])])]),
    ("1", [("x", [("y", [.placed 0 4 none]), ("z", [.placed 0 5 none])])])]

/-- The lists that stand apart in the record are joined, and nothing is lost. -/
theorem ofRecord_pointwise_spelledRecord :
    let index := ofRecord spelledRecord (some ["b.js"])
    (index.targetsAt "b.js" 7 7).map Target.columnNumber? = [some 3, some 2, some 0] ∧
      (index.targetsAt "b.js" 7 0).map Target.columnNumber? = [some 1] ∧
      (index.targetsAt "1" .nan .nan).map Target.columnNumber? = [some 4, some 5] ∧
      (index.stored? "1" 7 7).isNone = true ∧ "1" ∈ index.sourceNames ∧ index.count = 6 := by
  have distinct : (spelledRecord.map Prod.fst).Nodup := by decide
  obtain ⟨targets, nothing, sources, count⟩ := ofRecord_pointwise distinct (some ["b.js"])
  refine ⟨?_, ?_, ?_, ?_, (sources "1").mpr (by decide), count⟩
  · rw [targets]
    decide +kernel
  · rw [targets]
    decide +kernel
  · rw [targets]
    decide +kernel
  · rw [Option.isNone_iff_eq_none, nothing, ← List.isEmpty_iff]
    decide +kernel

end OriginIndex
end SourceMap

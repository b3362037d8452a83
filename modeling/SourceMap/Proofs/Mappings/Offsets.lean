import SourceMap.Proofs.Mappings.PrefixSums
import SourceMap.Proofs.Mappings.Writing

/-!
# What is handed on to be written

Writing takes differences first and spells them then, and taking differences does
not fail. So a mappings text is spelled from lists of numbers, one for each
segment of each line. Where the segments are in range these numbers are integers
that can be written: four for a segment without a name and five for one with a
name, and on a line sorted by column the first of them is not negative.

The numbers are stated before they are spelled because a claim about what reaches
the encoder would otherwise be one about digits. That the first difference is not
negative uses that lines are sorted; it can be zero, where two segments have one
column. The other differences have either sign.
-/

namespace SourceMap
namespace Mappings

/-- The differences of the segments of a line, from a cursor on, and the cursor
that they leave. -/
def lineOffsets : List Segment → Cursor → List (List Number) × Cursor
  | [], cursor => ([], cursor)
  | segment :: rest, cursor =>
    let (offset, next) := segment.offsetFrom cursor
    let (offsets, last) := lineOffsets rest next
    (offset :: offsets, last)

/-- The differences of the segments of lines, from a cursor on. -/
def offsets : List (List Segment) → Cursor → List (List (List Number))
  | [], _ => []
  | segments :: rest, cursor =>
    let (first, last) := lineOffsets segments cursor.newLine
    first :: offsets rest last

/-- Spell the differences of the segments of a line. -/
def spellLine (line : List (List Number)) : Except Fault (List Char) :=
  (line.mapM Vlq.encodeRun).map [','].intercalate

/-- The segments of the lines that are written for placements. -/
def segmentRows (placements : List Placement) : List (List Segment) :=
  (rows placements).map fun row => row.map (segmentOf (nameTable placements))

/-- Writing segments is spelling their differences. -/
theorem writeSegments_eq (segments : List Segment) (cursor : Cursor) :
    writeSegments segments cursor =
      ((lineOffsets segments cursor).1.mapM Vlq.encodeRun).map fun texts =>
        (texts, (lineOffsets segments cursor).2) := by
  induction segments generalizing cursor with
  | nil => rfl
  | cons segment rest inductionHypothesis =>
    rw [writeSegments, lineOffsets, List.mapM_cons]
    change Except.bind (Vlq.encodeRun (segment.offsetFrom cursor).1) _ =
      Except.map _ (Except.bind (Vlq.encodeRun (segment.offsetFrom cursor).1) _)
    cases Vlq.encodeRun (segment.offsetFrom cursor).1 with
    | error fault => rfl
    | ok text =>
      change Except.bind (writeSegments rest (segment.offsetFrom cursor).2) _ =
        Except.map _ (Except.bind (List.mapM _ _) _)
      rw [inductionHypothesis]
      cases (lineOffsets rest (segment.offsetFrom cursor).2).1.mapM Vlq.encodeRun <;> rfl

/-- Writing lines is spelling their differences, line by line. -/
theorem writeLines_eq (lines : List (List Segment)) (cursor : Cursor) :
    writeLines lines cursor = (offsets lines cursor).mapM spellLine := by
  induction lines generalizing cursor with
  | nil => rfl
  | cons segments rest inductionHypothesis =>
    rw [writeLines, offsets, List.mapM_cons, writeSegments_eq, spellLine]
    cases (lineOffsets segments cursor.newLine).1.mapM Vlq.encodeRun with
    | error fault => rfl
    | ok texts =>
      change Except.bind (writeLines rest (lineOffsets segments cursor.newLine).2) _ =
        Except.bind (List.mapM _ _) _
      rw [inductionHypothesis]

/-- An index is written by spelling the differences of the segments of its
placements. -/
theorem write_eq (index : OriginIndex) :
    write index = index.placements >>= fun placements =>
      ((offsets (segmentRows placements) .start).mapM spellLine).map fun groups =>
        ⟨String.ofList ([';'].intercalate groups), index.sourceNames, nameTable placements⟩ := by
  simp only [write_eq_rows, writeLines_eq, segmentRows]

/-- What the fields of a segment are that is written after others of its line:
they can be written, there are five of them if the segment has a name and four
if it has none, and the generated column does not go back. -/
structure Laid (fields : List Int) (named : Bool) : Prop where
  writable : ∀ field ∈ fields, field.natAbs ≤ Coordinate.greatest
  count : fields.length = if named then 5 else 4
  ascending : ∀ step ∈ fields.head?, 0 ≤ step

/-- Whether differences are the fields of a segment for a placement. -/
def LaidFor (offset : List Number) (placement : Placement) : Prop :=
  ∃ fields : List Int, offset = fields.map .ofInt ∧ Laid fields placement.name.isSome

variable {sources names : List String}

/-- The differences from a cursor that is not beyond the generated column. -/
theorem laidFor_offsetFrom {placement : Placement} (writable : Writable sources names placement)
    {cursor : Cursor} (inRange : cursor.InRange) {start : Nat}
    (column : cursor.generatedColumn = .ofNat start) (above : start ≤ placement.generatedColumn) :
    LaidFor ((segmentOf names placement).offsetFrom cursor).1 placement := by
  obtain ⟨fields, _, bounded, taken, _⟩ := writable.inRange_segmentOf.differences inRange
  refine ⟨fields, taken, bounded, ?_, ?_⟩
  · have counted := congrArg List.length taken
    rw [List.length_map] at counted
    rw [← counted]
    cases named : placement.name <;> simp [segmentOf, Segment.offsetFrom, named]
  · intro step first
    obtain ⟨rest, rfl⟩ := List.head?_eq_some_iff.mp first
    have moved : Number.ofNat placement.generatedColumn - cursor.generatedColumn = .ofInt step :=
      (List.cons.inj taken).1
    have highest := writable.inRange.generatedColumn
    have exact : ((placement.generatedColumn : Int) - start).natAbs ≤ Number.exactBound := by
      rw [Coordinate.greatest_eq] at highest
      unfold Number.exactBound
      omega
    rw [column, Number.ofNat_eq_ofInt, Number.ofNat_eq_ofInt, Number.ofInt_sub_ofInt exact] at moved
    obtain rfl := Number.ofInt_injective moved
    omega

/-- The differences of a line whose generated columns ascend, from a cursor that
is not beyond any of them. The induction passes on the column of the segment
just written as the start of the next difference. -/
theorem laidFor_lineOffsets {row : List Placement}
    (writable : ∀ placement ∈ row, Writable sources names placement)
    (ascending : row.Pairwise (·.generatedColumn ≤ ·.generatedColumn)) {cursor : Cursor}
    (inRange : cursor.InRange) {start : Nat} (column : cursor.generatedColumn = .ofNat start)
    (above : ∀ placement ∈ row, start ≤ placement.generatedColumn) :
    List.Forall₂ LaidFor (lineOffsets (row.map (segmentOf names)) cursor).1 row ∧
      (lineOffsets (row.map (segmentOf names)) cursor).2.InRange := by
  induction row generalizing cursor start with
  | nil => exact ⟨.nil, inRange⟩
  | cons placement rest inductionHypothesis =>
    obtain ⟨least, ascendingRest⟩ := List.pairwise_cons.mp ascending
    have here := writable placement List.mem_cons_self
    obtain ⟨later, lastInRange⟩ := inductionHypothesis
      (fun other member => writable other (List.mem_cons_of_mem placement member)) ascendingRest
      (here.inRange_segmentOf.offsetFrom inRange) rfl least
    have first := laidFor_offsetFrom here inRange column (above placement List.mem_cons_self)
    exact ⟨.cons first later, lastInRange⟩

/-- The differences of lines on each of which the generated columns ascend. -/
theorem laidFor_offsets {rows : List (List Placement)}
    (writable : ∀ row ∈ rows, ∀ placement ∈ row, Writable sources names placement)
    (ascending : ∀ row ∈ rows, row.Pairwise (·.generatedColumn ≤ ·.generatedColumn))
    {cursor : Cursor} (inRange : cursor.InRange) :
    List.Forall₂ (List.Forall₂ LaidFor)
      (offsets (rows.map fun row => row.map (segmentOf names)) cursor) rows := by
  induction rows generalizing cursor with
  | nil => exact .nil
  | cons row rest inductionHypothesis =>
    have fresh : cursor.newLine.generatedColumn = .ofNat 0 := rfl
    obtain ⟨here, lastInRange⟩ := laidFor_lineOffsets (writable row List.mem_cons_self)
      (ascending row List.mem_cons_self) inRange.newLine fresh fun _ _ => Nat.zero_le _
    exact .cons here (inductionHypothesis
      (fun other member => writable other (List.mem_cons_of_mem row member))
      (fun other member => ascending other (List.mem_cons_of_mem row member)) lastInRange)

/-- What a text is that was written for a placement: plain, not empty, and read
as the fields of a segment for it. -/
structure SpelledFor (text : List Char) (placement : Placement) : Prop where
  filled : text ≠ []
  plain : ∀ char ∈ text, Vlq.Plain char
  read : Vlq.readRun text = .ok ((fieldsOf text).map .ofInt)
  laid : Laid (fieldsOf text) placement.name.isSome

/-- Whether a group was written for the placements of a line: it joins texts for
them. -/
def GroupFor (group : List Char) (row : List Placement) : Prop :=
  ∃ texts, group = [','].intercalate texts ∧ List.Forall₂ SpelledFor texts row

/-- The fields of a segment are spelled. -/
theorem LaidFor.exists_encodeRun_eq_ok {offset : List Number} {placement : Placement}
    (laid : LaidFor offset placement) :
    ∃ text, Vlq.encodeRun offset = .ok text ∧ SpelledFor text placement := by
  obtain ⟨fields, rfl, laid⟩ := laid
  have inhabited : fields ≠ [] := by
    rintro rfl
    have count := laid.count
    split at count <;> simp at count
  have read := Vlq.readRun_writeRun inhabited laid.writable
  have same := fieldsOf_of_readRun read
  exact ⟨Vlq.writeRun fields, Vlq.encodeRun_ofInt laid.writable, Vlq.writeRun_ne_nil inhabited,
    fun _ => Vlq.plain_of_mem_writeRun, same.symm ▸ read, same.symm ▸ laid⟩

/-- The differences of a line are spelled as a group for it. -/
theorem exists_spellLine_eq_ok {line : List (List Number)} {row : List Placement}
    (laid : List.Forall₂ LaidFor line row) :
    ∃ group, spellLine line = .ok group ∧ GroupFor group row := by
  obtain ⟨texts, spelled, each⟩ := Walk.exists_mapM_eq_ok laid
    fun _ _ laidOne => laidOne.exists_encodeRun_eq_ok
  exact ⟨_, Walk.map_eq_ok.mpr ⟨texts, spelled, rfl⟩, texts, rfl, each⟩

/-- What the fields of segments are can be written. -/
theorem exists_eq_ofInt_of_laidFor {lines : List (List (List Number))}
    {rows : List (List Placement)} (laid : List.Forall₂ (List.Forall₂ LaidFor) lines rows) :
    ∀ line ∈ lines, ∀ offset ∈ line, ∀ number ∈ offset,
      ∃ difference : Int, number = .ofInt difference ∧
        difference.natAbs ≤ Coordinate.greatest := by
  intro line listed offset member number inside
  obtain ⟨row, _, laidLine⟩ := Walk.exists_of_forall₂_mem laid listed
  obtain ⟨placement, _, fields, rfl, laidFields⟩ := Walk.exists_of_forall₂_mem laidLine member
  obtain ⟨field, fieldMember, rfl⟩ := List.mem_map.mp inside
  exact ⟨field, rfl, laidFields.writable field fieldMember⟩

/-- An index that passes the check is written: its differences are those of
segments for its placements, and they are spelled as one group for each
generated line. The differences, the groups and the rows correspond line by line
and segment by segment. -/
theorem exists_write_eq_ok {index : OriginIndex} {placements : List Placement}
    (placed : index.placements = .ok placements)
    (sourcesFit : index.sourceNames.length ≤ Coordinate.greatest + 1)
    (namesFit : index.names.length ≤ Coordinate.greatest + 1) :
    ∃ groups, (offsets (segmentRows placements) .start).mapM spellLine = .ok groups ∧
      write index =
        .ok ⟨String.ofList ([';'].intercalate groups), index.sourceNames, nameTable placements⟩ ∧
      List.Forall₂ (List.Forall₂ LaidFor) (offsets (segmentRows placements) .start)
        (rows placements) ∧
      List.Forall₂ GroupFor groups (rows placements) := by
  rw [← nameTable_eq_names placed] at namesFit
  have writable := writable_of_placements placed sourcesFit namesFit rfl
  have ascending : ∀ row ∈ rows placements,
      row.Pairwise (·.generatedColumn ≤ ·.generatedColumn) := by
    intro row listed
    obtain ⟨line, _, rfl⟩ := List.mem_map.mp listed
    exact pairwise_sortBy Placement.generatedColumn _
  have laid := laidFor_offsets
    (fun row listed placement member => writable placement (mem_of_mem_rows listed member))
    ascending Cursor.inRange_start
  obtain ⟨groups, spelled, written⟩ :=
    Walk.exists_mapM_eq_ok laid fun _ _ => exists_spellLine_eq_ok
  refine ⟨groups, spelled, ?_, laid, written⟩
  rw [write_eq]
  exact Walk.bind_eq_ok.mpr ⟨placements, placed, Walk.map_eq_ok.mpr ⟨groups, spelled, rfl⟩⟩

end Mappings
end SourceMap

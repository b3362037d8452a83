import SourceMap.Proofs.Mappings.Offsets
import SourceMap.Proofs.Vlq.Range

/-!
# Writing and reading in lockstep

A mappings text consists of starts of generated lines and of segments. Writing it
takes the differences of each segment from a cursor, reading it adds them to one.
As long as all fields are integers that can be encoded, reading what was written
stands at the same cursor as writing did after every mark, and finds the segments
that were written, each with a name index or without one as it was; and what was
read from four or five integers is written as these integers.

The fields may be negative here, so this is about the arithmetic of cursors and
not about texts that are accepted. The bound on them is what makes a difference
exact. The other direction bounds the differences and not the sums: a sum of two
such numbers is still an exact integer, even where it is beyond what can be
encoded.
-/

namespace SourceMap

/-- A mark of a mappings text: the start of a generated line, or a segment. -/
inductive Mark (content : Type) where
  | newLine : Mark content
  | segment : content → Mark content
deriving DecidableEq

/-- A segment all of whose fields can be encoded. -/
structure Segment.IsEncodable (segment : Segment) : Prop where
  generatedColumn : Vlq.IsEncodable segment.generatedColumn
  sourceIndex : Vlq.IsEncodable segment.sourceIndex
  originalLine : Vlq.IsEncodable segment.originalLine
  originalColumn : Vlq.IsEncodable segment.originalColumn
  nameIndex : ∀ index, segment.nameIndex = some index → Vlq.IsEncodable index

/-- A cursor all of whose fields can be encoded. -/
structure Cursor.IsEncodable (cursor : Cursor) : Prop where
  generatedColumn : Vlq.IsEncodable cursor.generatedColumn
  sourceIndex : Vlq.IsEncodable cursor.sourceIndex
  originalLine : Vlq.IsEncodable cursor.originalLine
  originalColumn : Vlq.IsEncodable cursor.originalColumn
  nameIndex : Vlq.IsEncodable cursor.nameIndex

/-- Between numbers that can be encoded, adding the difference undoes taking it. -/
theorem Vlq.IsEncodable.add_difference {reached previous : Number}
    (reachedInRange : Vlq.IsEncodable reached) (previousInRange : Vlq.IsEncodable previous) :
    previous + (reached - previous) = reached := by
  obtain ⟨high, rfl, highBounded⟩ := reachedInRange
  obtain ⟨low, rfl, lowBounded⟩ := previousInRange
  obtain ⟨taken, added⟩ := Number.ofInt_difference highBounded lowBounded
  rw [taken, added]

/-- Between numbers that can be encoded, taking the difference of a sum undoes
adding. -/
theorem Vlq.IsEncodable.difference_add {step previous : Number} (stepInRange : Vlq.IsEncodable step)
    (previousInRange : Vlq.IsEncodable previous) : previous + step - previous = step := by
  obtain ⟨step, rfl, stepBounded⟩ := stepInRange
  obtain ⟨low, rfl, lowBounded⟩ := previousInRange
  rw [Coordinate.greatest_eq] at stepBounded lowBounded
  have sumExact : (low + step).natAbs ≤ Number.exactBound := by
    unfold Number.exactBound
    omega
  have stepExact : (low + step - low).natAbs ≤ Number.exactBound := by
    unfold Number.exactBound
    omega
  rw [Number.ofInt_add_ofInt sumExact, Number.ofInt_sub_ofInt stepExact, add_sub_cancel_left]

namespace Cursor

/-- A mark as it is written from a cursor, and the cursor behind it. -/
def writeMark (cursor : Cursor) : Mark Segment → Mark (List Number) × Cursor
  | .newLine => (.newLine, cursor.newLine)
  | .segment segment => (.segment (segment.offsetFrom cursor).1, (segment.offsetFrom cursor).2)

/-- A mark as it is read from a cursor, and the cursor behind it. -/
def readMark (location : Location) (cursor : Cursor) :
    Mark (List Number) → Except Fault (Mark Segment × Cursor)
  | .newLine => .ok (.newLine, cursor.newLine)
  | .segment offset =>
    (cursor.advance offset location).map fun (segment, next) => (.segment segment, next)

/-- Marks as they are written one after the other, each with the cursor behind
it. -/
def writeMarks : Cursor → List (Mark Segment) → List (Mark (List Number) × Cursor)
  | _, [] => []
  | cursor, mark :: rest => cursor.writeMark mark :: writeMarks (cursor.writeMark mark).2 rest

/-- Marks as they are read one after the other, each with the cursor behind it. -/
def readMarks (location : Location) :
    Cursor → List (Mark (List Number)) → Except Fault (List (Mark Segment × Cursor))
  | _, [] => .ok []
  | cursor, mark :: rest => do
    let found ← cursor.readMark location mark
    let later ← readMarks location found.2 rest
    return found :: later

variable {cursor : Cursor}

/-- Writing and reading start at a cursor that can be encoded. -/
theorem isEncodable_start : start.IsEncodable := by
  constructor <;> exact ⟨0, rfl, Nat.zero_le _⟩

/-- Behind the start of a line or a segment that can be encoded the cursor can
be as well. -/
theorem IsEncodable.writeMark (inRange : cursor.IsEncodable) {mark : Mark Segment}
    (each : ∀ segment, mark = .segment segment → segment.IsEncodable) :
    (cursor.writeMark mark).2.IsEncodable := by
  cases mark with
  | newLine => exact { inRange with generatedColumn := ⟨0, rfl, Nat.zero_le _⟩ }
  | segment segment =>
    have segmentInRange := each segment rfl
    refine { segmentInRange with nameIndex := ?_ }
    change Vlq.IsEncodable (segment.nameIndex.getD cursor.nameIndex)
    cases named : segment.nameIndex with
    | none => exact inRange.nameIndex
    | some index => exact segmentInRange.nameIndex index named

/-- A mark is read as it was before it was written, and reading leaves the
cursor that writing left. -/
theorem IsEncodable.readMark_writeMark (inRange : cursor.IsEncodable) {mark : Mark Segment}
    (each : ∀ segment, mark = .segment segment → segment.IsEncodable) (location : Location) :
    cursor.readMark location (cursor.writeMark mark).1 = .ok (mark, (cursor.writeMark mark).2) := by
  cases mark with
  | newLine => rfl
  | segment segment =>
    have segmentInRange := each segment rfl
    have advanced : cursor.advance (segment.offsetFrom cursor).1 location =
        .ok (segment, (segment.offsetFrom cursor).2) := by
      apply Segment.advance_offsetFrom
      · exact segmentInRange.generatedColumn.add_difference inRange.generatedColumn
      · exact segmentInRange.sourceIndex.add_difference inRange.sourceIndex
      · exact segmentInRange.originalLine.add_difference inRange.originalLine
      · exact segmentInRange.originalColumn.add_difference inRange.originalColumn
      · intro index named
        exact (segmentInRange.nameIndex index named).add_difference inRange.nameIndex
    rw [Cursor.writeMark, Cursor.readMark, advanced]
    rfl

/-- Marks are read as they were before they were written, and behind each of
them reading stands at the cursor at which writing stood.

Proof: by induction on the marks. A mark that was written is read from the same
cursor as it was, and leaves both sides at one cursor, which can be encoded
again. -/
theorem IsEncodable.readMarks_writeMarks (inRange : cursor.IsEncodable)
    {marks : List (Mark Segment)}
    (each : ∀ segment, .segment segment ∈ marks → segment.IsEncodable) (location : Location) :
    ∃ found, readMarks location cursor ((writeMarks cursor marks).map Prod.fst) = .ok found ∧
      found.map Prod.fst = marks ∧
      found.map Prod.snd = (writeMarks cursor marks).map Prod.snd := by
  induction marks generalizing cursor with
  | nil => exact ⟨[], rfl, rfl, rfl⟩
  | cons mark rest inductionHypothesis =>
    have here : ∀ segment, mark = .segment segment → segment.IsEncodable := fun segment same =>
      each segment (same ▸ List.mem_cons_self)
    obtain ⟨later, read, sameMarks, sameCursors⟩ := inductionHypothesis (inRange.writeMark here)
      fun segment member => each segment (List.mem_cons_of_mem mark member)
    refine ⟨(mark, (cursor.writeMark mark).2) :: later, ?_, by rw [List.map_cons, sameMarks],
      by rw [writeMarks, List.map_cons, List.map_cons, sameCursors]⟩
    rw [writeMarks, List.map_cons, readMarks, inRange.readMark_writeMark here location]
    exact Walk.bind_eq_ok.mpr ⟨_, rfl, Walk.bind_eq_ok.mpr ⟨_, read, rfl⟩⟩

/-- What is read from four or five numbers that can be encoded is written as
these numbers, and writing leaves the cursor that reading left. The segment has
a name index exactly if there are five. -/
theorem IsEncodable.offsetFrom_advance (inRange : cursor.IsEncodable) {offset : List Number}
    (count : offset.length = 4 ∨ offset.length = 5) (each : ∀ step ∈ offset, Vlq.IsEncodable step)
    (location : Location) :
    ∃ segment next, cursor.advance offset location = .ok (segment, next) ∧
      segment.offsetFrom cursor = (offset, next) ∧
      (segment.nameIndex.isSome = true ↔ offset.length = 5) := by
  match offset, count with
  | [columns, sources, lines, places], _ =>
    simp only [List.forall_mem_cons] at each
    obtain ⟨columnsInRange, sourcesInRange, linesInRange, placesInRange, _⟩ := each
    refine ⟨_, _, rfl, ?_, by simp [Cursor.segment]⟩
    simp [Cursor.segment, Segment.offsetFrom, columnsInRange.difference_add inRange.generatedColumn,
      sourcesInRange.difference_add inRange.sourceIndex,
      linesInRange.difference_add inRange.originalLine,
      placesInRange.difference_add inRange.originalColumn]
  | [columns, sources, lines, places, names], _ =>
    simp only [List.forall_mem_cons] at each
    obtain ⟨columnsInRange, sourcesInRange, linesInRange, placesInRange, namesInRange, _⟩ := each
    refine ⟨_, _, rfl, ?_, by simp [Cursor.segment]⟩
    simp [Cursor.segment, Segment.offsetFrom, columnsInRange.difference_add inRange.generatedColumn,
      sourcesInRange.difference_add inRange.sourceIndex,
      linesInRange.difference_add inRange.originalLine,
      placesInRange.difference_add inRange.originalColumn,
      namesInRange.difference_add inRange.nameIndex]

/-- Writing marks and reading them again goes in lockstep: from a cursor that
can be encoded, and with segments that can be, reading succeeds, finds all marks
as they were, and stands behind each of them at the cursor at which writing
stood. The other way round, what is read from four or five numbers that can be
encoded is written as the same numbers and leads to the same cursor. -/
theorem lockstep {cursor : Cursor} (inRange : cursor.IsEncodable) (location : Location) :
    (∀ marks : List (Mark Segment), (∀ segment, .segment segment ∈ marks → segment.IsEncodable) →
      ∃ found, readMarks location cursor ((writeMarks cursor marks).map Prod.fst) = .ok found ∧
        found.map Prod.fst = marks ∧
        found.map Prod.snd = (writeMarks cursor marks).map Prod.snd) ∧
    ∀ offset : List Number, offset.length = 4 ∨ offset.length = 5 →
      (∀ step ∈ offset, Vlq.IsEncodable step) →
      ∃ segment next, cursor.advance offset location = .ok (segment, next) ∧
        segment.offsetFrom cursor = (offset, next) ∧
        (segment.nameIndex.isSome = true ↔ offset.length = 5) :=
  ⟨fun _ each => inRange.readMarks_writeMarks each location,
    fun _ count each => inRange.offsetFrom_advance count each location⟩

/-- A segment with the first name, the start of a line, a segment without a name
and one with another name: the name index waits at the first name while there is
none. Negative fields return as well. -/
theorem lockstep_across_unnamed :
    let named : Segment := ⟨.ofInt 7, .ofInt 1, .ofInt (-2), .ofInt 5, some (.ofInt 0)⟩
    let unnamed : Segment := ⟨.ofInt 3, .ofInt 1, .ofInt 4, .ofInt 0, none⟩
    let renamed : Segment := ⟨.ofInt 9, .ofInt 0, .ofInt 4, .ofInt (-1), some (.ofInt 6)⟩
    let marks := [.segment named, .newLine, .segment unnamed, .segment renamed]
    (writeMarks start marks).map Prod.fst =
        [.segment ([7, 1, -2, 5, 0].map .ofInt), .newLine, .segment ([3, 0, 6, -5].map .ofInt),
          .segment ([6, -1, 0, -1, 6].map .ofInt)] ∧
      (∃ found, readMarks {} start ((writeMarks start marks).map Prod.fst) = .ok found ∧
        found.map Prod.fst = marks ∧ found.map Prod.snd = (writeMarks start marks).map Prod.snd) ∧
      ∃ segment next, start.advance ([3, -1, 6, -5].map .ofInt) {} = .ok (segment, next) ∧
        segment.offsetFrom start = ([3, -1, 6, -5].map .ofInt, next) := by
  intro named unnamed renamed marks
  have each : ∀ segment, .segment segment ∈ marks → segment.IsEncodable := by
    intro segment member
    simp only [marks, List.mem_cons, Mark.segment.injEq, List.not_mem_nil, or_false, reduceCtorEq,
      false_or] at member
    rcases member with rfl | rfl | rfl
    · exact ⟨⟨7, rfl, by decide⟩, ⟨1, rfl, by decide⟩, ⟨-2, rfl, by decide⟩, ⟨5, rfl, by decide⟩,
        fun _ same => ⟨0, (Option.some.inj same).symm, by decide⟩⟩
    · exact ⟨⟨3, rfl, by decide⟩, ⟨1, rfl, by decide⟩, ⟨4, rfl, by decide⟩, ⟨0, rfl, by decide⟩,
        nofun⟩
    · exact ⟨⟨9, rfl, by decide⟩, ⟨0, rfl, by decide⟩, ⟨4, rfl, by decide⟩, ⟨-1, rfl, by decide⟩,
        fun _ same => ⟨6, (Option.some.inj same).symm, by decide⟩⟩
  have bounded : ∀ step ∈ ([3, -1, 6, -5] : List Int), step.natAbs ≤ Coordinate.greatest := by
    decide
  have inSteps : ∀ step ∈ [3, -1, 6, -5].map Number.ofInt, Vlq.IsEncodable step := by
    rw [List.forall_mem_map]
    exact fun step member => ⟨step, rfl, bounded step member⟩
  obtain ⟨segment, next, advanced, taken, _⟩ :=
    (lockstep isEncodable_start {}).2 _ (Or.inl rfl) inSteps
  exact ⟨by decide +kernel, (lockstep isEncodable_start {}).1 marks each, segment, next, advanced,
    taken⟩

end Cursor
end SourceMap

import SourceMap.Proofs.Number.Order
import SourceMap.Proofs.Vlq.RoundTrip
import SourceMap.Segment

/-!
# Differences of segments

As long as all fields are coordinates the differences of a segment from a cursor
are integers that can be written, and adding them to the cursor leads to the same
segment and to the same next cursor as taking them did.

The two sides keep their cursors apart: writing takes the next cursor from the
segment, reading from the sums. They agree because a difference of two coordinates
is exact in double precision and adding it undoes it. The argument is made once
for a field in `Number.IsCoordinate.difference`; a segment has it four or five
times. A segment without a name leaves the name index alone on both sides.
-/

namespace SourceMap

/-- A natural number up to the greatest coordinate. -/
def Number.IsCoordinate (number : Number) : Prop :=
  ∃ value ≤ Coordinate.greatest, number = .ofNat value

/-- Zero is a coordinate. -/
theorem Number.isCoordinate_zero : Number.IsCoordinate 0 := ⟨0, Nat.zero_le _, rfl⟩

/-- A number is a coordinate if it is read as one. -/
theorem Number.isCoordinate_iff {number : Number} :
    number.IsCoordinate ↔ number.coordinate?.isSome = true := by
  rw [Option.isSome_iff_exists]
  constructor
  · rintro ⟨value, bounded, rfl⟩
    exact ⟨value, coordinate?_eq_some_iff.mpr ⟨rfl, bounded⟩⟩
  · rintro ⟨value, read⟩
    obtain ⟨rfl, bounded⟩ := coordinate?_eq_some_iff.mp read
    exact ⟨value, bounded, rfl⟩

instance (number : Number) : Decidable number.IsCoordinate :=
  decidable_of_iff _ Number.isCoordinate_iff.symm

/-- A coordinate is defined. -/
theorem Number.IsCoordinate.ne_nan {number : Number} (coordinate : number.IsCoordinate) :
    number ≠ .nan := by
  obtain ⟨value, _, rfl⟩ := coordinate
  rintro ⟨⟩

/-- The difference of integers that can be written is exact, and adding it
undoes taking it. The bound is half of the bound of exact integers, so neither
the difference nor the sum leaves the range in which every integer is a number
of double precision. -/
theorem Number.ofInt_difference {reached previous : Int}
    (reachedBounded : reached.natAbs ≤ Coordinate.greatest)
    (previousBounded : previous.natAbs ≤ Coordinate.greatest) :
    ofInt reached - ofInt previous = ofInt (reached - previous) ∧
      ofInt previous + ofInt (reached - previous) = ofInt reached := by
  rw [Coordinate.greatest_eq] at reachedBounded previousBounded
  have stepExact : (reached - previous).natAbs ≤ exactBound := by
    unfold exactBound
    omega
  have sumExact : (previous + (reached - previous)).natAbs ≤ exactBound := by
    unfold exactBound
    omega
  refine ⟨ofInt_sub_ofInt stepExact, ?_⟩
  rw [ofInt_add_ofInt sumExact, add_sub_cancel]

/-- The difference of two coordinates can be written, and adding it undoes
taking it. -/
theorem Number.IsCoordinate.difference {reached previous : Number}
    (reachedInRange : reached.IsCoordinate) (previousInRange : previous.IsCoordinate) :
    ∃ step : Int, step.natAbs ≤ Coordinate.greatest ∧ reached - previous = .ofInt step ∧
      previous + .ofInt step = reached := by
  obtain ⟨high, highBounded, rfl⟩ := reachedInRange
  obtain ⟨low, lowBounded, rfl⟩ := previousInRange
  rw [ofNat_eq_ofInt, ofNat_eq_ofInt]
  exact ⟨high - low, by omega, ofInt_difference highBounded lowBounded⟩

/-- Advancing by the differences of a segment leads to it, and to the cursor
that taking them did, if in each field adding the difference undoes taking it.
Nothing is assumed about the fields otherwise: this is the part of the argument
that has nothing to do with rounding. -/
theorem Segment.advance_offsetFrom {segment : Segment} {previous : Cursor}
    (generatedColumn : previous.generatedColumn +
      (segment.generatedColumn - previous.generatedColumn) = segment.generatedColumn)
    (sourceIndex : previous.sourceIndex +
      (segment.sourceIndex - previous.sourceIndex) = segment.sourceIndex)
    (originalLine : previous.originalLine +
      (segment.originalLine - previous.originalLine) = segment.originalLine)
    (originalColumn : previous.originalColumn +
      (segment.originalColumn - previous.originalColumn) = segment.originalColumn)
    (nameIndex : ∀ index, segment.nameIndex = some index →
      previous.nameIndex + (index - previous.nameIndex) = index) (location : Location) :
    previous.advance (segment.offsetFrom previous).1 location =
      .ok (segment, (segment.offsetFrom previous).2) := by
  obtain ⟨column, source, line, place, name⟩ := segment
  cases name with
  | none =>
    simp [Segment.offsetFrom, Cursor.advance, Cursor.segment, generatedColumn, sourceIndex,
      originalLine, originalColumn]
  | some index =>
    simp [Segment.offsetFrom, Cursor.advance, Cursor.segment, generatedColumn, sourceIndex,
      originalLine, originalColumn, nameIndex index rfl]

/-- The cursor with differences added. Without a difference for it, the name
index is not moved. -/
def Cursor.moved (cursor : Cursor) (column source line place : Number) (name : Option Number) :
    Cursor where
  generatedColumn := cursor.generatedColumn + column
  sourceIndex := cursor.sourceIndex + source
  originalLine := cursor.originalLine + line
  originalColumn := cursor.originalColumn + place
  nameIndex := (name.map (cursor.nameIndex + ·)).getD cursor.nameIndex

/-- Advancing takes four differences, or five with a name, and adds them. With
any other number of fields it fails, and whether the segment has a name index is
decided by the number alone. -/
theorem Cursor.advance_eq_ok_iff {previous next : Cursor} {offset : List Number}
    {location : Location} {segment : Segment} :
    previous.advance offset location = .ok (segment, next) ↔
      ∃ column source line place name,
        offset = [column, source, line, place] ++ Option.toList name ∧
          next = previous.moved column source line place name ∧
          segment = next.segment name.isSome := by
  constructor
  · intro success
    unfold Cursor.advance at success
    split at success
    · obtain ⟨rfl, rfl⟩ := Prod.mk.inj (Except.ok.inj success)
      exact ⟨_, _, _, _, none, rfl, rfl, rfl⟩
    · obtain ⟨rfl, rfl⟩ := Prod.mk.inj (Except.ok.inj success)
      exact ⟨_, _, _, _, some _, rfl, rfl, rfl⟩
    · cases success
  · rintro ⟨column, source, line, place, name, rfl, rfl, rfl⟩
    cases name <;> rfl

/-- A segment of four fields has no name index, and the cursor keeps its own.
One of five fields has the name index that the cursor moves to. -/
theorem Cursor.nameIndex_of_advance {previous next : Cursor} {offset : List Number}
    {location : Location} {segment : Segment}
    (success : previous.advance offset location = .ok (segment, next)) :
    offset.length = 4 ∧ segment.nameIndex = none ∧ next.nameIndex = previous.nameIndex ∨
      offset.length = 5 ∧ segment.nameIndex = some next.nameIndex := by
  obtain ⟨_, _, _, _, name, rfl, rfl, rfl⟩ := Cursor.advance_eq_ok_iff.mp success
  cases name with
  | none => exact Or.inl ⟨rfl, rfl, rfl⟩
  | some index => exact Or.inr ⟨rfl, rfl⟩

/-- A segment all of whose fields are coordinates. -/
structure Segment.InRange (segment : Segment) : Prop where
  generatedColumn : segment.generatedColumn.IsCoordinate
  sourceIndex : segment.sourceIndex.IsCoordinate
  originalLine : segment.originalLine.IsCoordinate
  originalColumn : segment.originalColumn.IsCoordinate
  nameIndex : ∀ index, segment.nameIndex = some index → index.IsCoordinate

/-- A cursor all of whose fields are coordinates. -/
structure Cursor.InRange (cursor : Cursor) : Prop where
  generatedColumn : cursor.generatedColumn.IsCoordinate
  sourceIndex : cursor.sourceIndex.IsCoordinate
  originalLine : cursor.originalLine.IsCoordinate
  originalColumn : cursor.originalColumn.IsCoordinate
  nameIndex : cursor.nameIndex.IsCoordinate

/-- Writing and reading start in range. -/
theorem Cursor.inRange_start : Cursor.start.InRange := by
  constructor <;> exact Number.isCoordinate_zero

/-- A new generated line stays in range. -/
theorem Cursor.InRange.newLine {cursor : Cursor} (inRange : cursor.InRange) :
    cursor.newLine.InRange :=
  { inRange with generatedColumn := Number.isCoordinate_zero }

/-- The next cursor is in range again. -/
theorem Segment.InRange.offsetFrom {segment : Segment} (inRange : segment.InRange)
    {previous : Cursor} (previousInRange : previous.InRange) :
    (segment.offsetFrom previous).2.InRange where
  generatedColumn := inRange.generatedColumn
  sourceIndex := inRange.sourceIndex
  originalLine := inRange.originalLine
  originalColumn := inRange.originalColumn
  nameIndex := by
    change (segment.nameIndex.getD previous.nameIndex).IsCoordinate
    cases named : segment.nameIndex with
    | none => exact previousInRange.nameIndex
    | some index => exact inRange.nameIndex index named

/-- The differences of a segment in range can be written, and advancing by them
leads to the segment itself. The cursor must be in range as well;
`Segment.InRange.offsetFrom` says that it stays so. -/
theorem Segment.InRange.differences {segment : Segment} (inRange : segment.InRange)
    {previous : Cursor} (previousInRange : previous.InRange) :
    ∃ differences : List Int, differences ≠ [] ∧
      (∀ difference ∈ differences, difference.natAbs ≤ Coordinate.greatest) ∧
      (segment.offsetFrom previous).1 = differences.map .ofInt ∧
      ∀ location, previous.advance (differences.map .ofInt) location =
        .ok (segment, (segment.offsetFrom previous).2) := by
  obtain ⟨columns, columnsBounded, columnsTaken, columnsAdded⟩ :=
    inRange.generatedColumn.difference previousInRange.generatedColumn
  obtain ⟨sources, sourcesBounded, sourcesTaken, sourcesAdded⟩ :=
    inRange.sourceIndex.difference previousInRange.sourceIndex
  obtain ⟨lines, linesBounded, linesTaken, linesAdded⟩ :=
    inRange.originalLine.difference previousInRange.originalLine
  obtain ⟨places, placesBounded, placesTaken, placesAdded⟩ :=
    inRange.originalColumn.difference previousInRange.originalColumn
  have fromNames : ∀ index, segment.nameIndex = some index → ∃ names : Int,
      names.natAbs ≤ Coordinate.greatest ∧ index - previous.nameIndex = .ofInt names ∧
        previous.nameIndex + .ofInt names = index := fun index named =>
    (inRange.nameIndex index named).difference previousInRange.nameIndex
  have advanced (location : Location) : previous.advance (segment.offsetFrom previous).1 location =
      .ok (segment, (segment.offsetFrom previous).2) := by
    apply Segment.advance_offsetFrom
    · rw [columnsTaken, columnsAdded]
    · rw [sourcesTaken, sourcesAdded]
    · rw [linesTaken, linesAdded]
    · rw [placesTaken, placesAdded]
    · intro index named
      obtain ⟨names, _, namesTaken, namesAdded⟩ := fromNames index named
      rw [namesTaken, namesAdded]
  cases named : segment.nameIndex with
  | none =>
    have taken : (segment.offsetFrom previous).1 =
        [columns, sources, lines, places].map .ofInt := by
      simp [Segment.offsetFrom, named, columnsTaken, sourcesTaken, linesTaken, placesTaken]
    refine ⟨[columns, sources, lines, places], by simp, ?_, taken, taken ▸ advanced⟩
    simp [columnsBounded, sourcesBounded, linesBounded, placesBounded]
  | some index =>
    obtain ⟨names, namesBounded, namesTaken, _⟩ := fromNames index named
    have taken : (segment.offsetFrom previous).1 =
        [columns, sources, lines, places, names].map .ofInt := by
      simp [Segment.offsetFrom, named, columnsTaken, sourcesTaken, linesTaken, placesTaken,
        namesTaken]
    refine ⟨[columns, sources, lines, places, names], by simp, ?_, taken, taken ▸ advanced⟩
    simp [columnsBounded, sourcesBounded, linesBounded, placesBounded, namesBounded]

/-- The differences of a segment in range are written as a run of digits that
reads back as these differences and holds plain characters only, so no comma,
semicolon or blank is among them. The step of a mappings text comes down to
this: what is written at a cursor is read at the same cursor as the same
segment. -/
theorem Segment.InRange.encodeRun_offsetFrom {segment : Segment} (inRange : segment.InRange)
    {previous : Cursor} (previousInRange : previous.InRange) :
    ∃ run, Vlq.encodeRun (segment.offsetFrom previous).1 = .ok run ∧ run ≠ [] ∧
      (∀ char ∈ run, Vlq.Plain char) ∧
      ∃ offset, Vlq.readRun run = .ok offset ∧
        ∀ location, previous.advance offset location =
          .ok (segment, (segment.offsetFrom previous).2) := by
  obtain ⟨differences, inhabited, bounded, taken, advanced⟩ := inRange.differences previousInRange
  have read := Vlq.readRun_writeRun inhabited bounded
  have filled : Vlq.writeRun differences ≠ [] := by
    intro nothing
    rw [nothing, Vlq.readRun_eq, if_pos rfl] at read
    cases read
  refine ⟨Vlq.writeRun differences, ?_, filled, fun _ => Vlq.plain_of_mem_writeRun,
    differences.map .ofInt, read, advanced⟩
  rw [taken, Vlq.encodeRun_ofInt bounded]

end SourceMap

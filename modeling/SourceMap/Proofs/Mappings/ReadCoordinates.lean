import SourceMap.Proofs.Distinct
import SourceMap.Proofs.Mappings.Faults
import SourceMap.Proofs.Mappings.Refusals
import SourceMap.Proofs.Number.Saturation
import SourceMap.Proofs.OriginIndex.Built
import SourceMap.Proofs.OriginIndex.InRange
import SourceMap.Proofs.Vlq.Runs

/-!
# The coordinates of an index that was read

Reading bounds the steps from one segment to the next, and it refuses totals that
are negative. So all coordinates of an index that was read are natural numbers.
But many steps add up to more than one step can write, and writing bounds the
totals: an index that was read can be written again exactly as long as none of its
coordinates is beyond the greatest one.

A total need not be exact to be a natural number; `Number.IsReached` holds of
rounded totals too, and it is kept from token to token. Long values are excluded,
since one makes a coordinate the undefined number. The bound on totals when
writing is deliberate, and that reading has no such bound is what the last example
of this module shows.
-/

namespace SourceMap

/-- A cursor all coordinates of which are totals that are reached. -/
structure Cursor.Reached (cursor : Cursor) : Prop where
  generatedColumn : cursor.generatedColumn.IsReached
  originalLine : cursor.originalLine.IsReached
  originalColumn : cursor.originalColumn.IsReached

/-- The cursor at the start of a text has reached zero. -/
theorem Cursor.reached_start : Cursor.start.Reached :=
  ⟨Number.isReached_zero, Number.isReached_zero, Number.isReached_zero⟩

/-- A new line leaves the coordinates of a cursor, but the generated column at
zero. -/
theorem Cursor.Reached.newLine {cursor : Cursor} (reached : cursor.Reached) :
    cursor.newLine.Reached :=
  ⟨Number.isReached_zero, reached.originalLine, reached.originalColumn⟩

/-- A mapping the coordinates of which are totals that are reached; the
generated line counts the lines of a text. -/
structure Mapping.Reached (mapping : Mapping) : Prop where
  line : mapping.line.IsReached
  column : mapping.column.IsReached
  target : ∃ (line : Nat) (column : Number) (name : Option String),
    mapping.target = .placed (.ofNat line) column name ∧ column.IsReached

/-- The coordinates of such a mapping are natural numbers. -/
theorem Mapping.Reached.exists_coordinate {mapping : Mapping} (reached : mapping.Reached)
    {value : Option Json} (member : value ∈ mapping.coordinates) :
    ∃ coordinate : Nat, value = some (.number (.ofNat coordinate)) := by
  obtain ⟨line, _, isLine⟩ := reached.line
  obtain ⟨column, _, isColumn⟩ := reached.column
  obtain ⟨generatedLine, _, _, isTarget, generatedColumn, _, rfl⟩ := reached.target
  simp only [Mapping.coordinates, isLine, isColumn, isTarget, Target.placed, List.mem_cons,
    List.not_mem_nil, or_false] at member
  rcases member with rfl | rfl | rfl | rfl
  · exact ⟨line, rfl⟩
  · exact ⟨column, rfl⟩
  · exact ⟨generatedLine, rfl⟩
  · exact ⟨generatedColumn, rfl⟩

namespace Mappings

variable {sources names : List String}

/-- A token that resolves from totals that are reached goes on to such totals,
and to a mapping with them. Each coordinate makes one step that can be written
and was checked not to be negative. -/
theorem Token.reached_of_resolve {token : Token} {cursor next : Cursor} {mapping : Mapping}
    (reached : cursor.Reached) (short : ¬Vlq.HasLongValue token.text)
    (success : token.resolve sources names cursor = .ok (mapping, next)) :
    mapping.Reached ∧ next.Reached := by
  have started : (token.startFrom cursor).Reached := by
    unfold Token.startFrom
    split
    · exact reached.newLine
    · exact reached
  obtain ⟨offset, read, success⟩ := Walk.bind_eq_ok.mp success
  obtain ⟨⟨resolved, last⟩, stepped, success⟩ := Walk.bind_eq_ok.mp success
  obtain ⟨⟨segment, left⟩, advanced, stepped⟩ := Walk.bind_eq_ok.mp stepped
  obtain ⟨found, looked, stepped⟩ := Walk.bind_eq_ok.mp stepped
  obtain ⟨rfl, rfl⟩ := Prod.mk.inj (Except.ok.inj stepped)
  obtain ⟨rfl, rfl⟩ := Prod.mk.inj (Except.ok.inj success)
  obtain ⟨fields, spells, rfl⟩ :=
    (Vlq.readRun_eq_ok_iff short).mp (Walk.mapError_eq_ok.mp read)
  obtain ⟨column, source, line, place, name, rfl, rfl, rfl⟩ := advance_ofInt advanced
  have resolvesTo := resolvesTo_of_resolve looked
  have writable := spells.natAbs_le
  have columnReached :=
    started.generatedColumn.add (writable column (by simp)) resolvesTo.columnChecked
  have lineReached := started.originalLine.add (writable line (by simp)) resolvesTo.lineChecked
  have placeReached := started.originalColumn.add (writable place (by simp)) resolvesTo.placeChecked
  refine ⟨⟨?_, ?_, token.line, _, _, rfl, ?_⟩, columnReached, lineReached, placeReached⟩
  · exact resolvesTo.originalLine ▸ lineReached
  · exact resolvesTo.originalColumn ▸ placeReached
  · exact resolvesTo.generatedColumn ▸ columnReached

/-- Tokens resolve to mappings with totals that are reached. -/
theorem reached_of_resolveAll {tokens : List Token} {cursor : Cursor} {mappings : List Mapping}
    (reached : cursor.Reached) (short : ∀ token ∈ tokens, ¬Vlq.HasLongValue token.text)
    (success : resolveAll sources names cursor tokens = .ok mappings) :
    ∀ mapping ∈ mappings, mapping.Reached := by
  induction tokens generalizing cursor mappings with
  | nil =>
    obtain rfl := Except.ok.inj success
    simp
  | cons token rest inductionHypothesis =>
    obtain ⟨⟨first, next⟩, here, success⟩ := Walk.bind_eq_ok.mp success
    obtain ⟨later, there, success⟩ := Walk.bind_eq_ok.mp success
    obtain rfl := Except.ok.inj success
    obtain ⟨firstReached, nextReached⟩ :=
      token.reached_of_resolve reached (short token List.mem_cons_self) here
    intro mapping member
    rcases List.mem_cons.mp member with rfl | further
    · exact firstReached
    · exact inductionHypothesis nextReached
        (fun other listed => short other (List.mem_cons_of_mem token listed)) there mapping further

variable {text : String} {index : OriginIndex}

/-- A token resolves as its run is read and the cursor steps on. -/
theorem Token.resolve_eq_ok {token : Token} {cursor next : Cursor} {offset : List Number}
    {resolved : Resolved} (read : Vlq.readRun token.text = .ok offset)
    (stepped : (token.startFrom cursor).step offset sources names token.location =
      .ok (resolved, next)) :
    token.resolve sources names cursor = .ok (⟨resolved.source, resolved.originalLine,
      resolved.originalColumn, .placed (.ofNat token.line) resolved.generatedColumn resolved.name⟩,
      next) :=
  Walk.bind_eq_ok.mpr ⟨offset, Walk.mapError_eq_ok.mpr read,
    Walk.bind_eq_ok.mpr ⟨_, stepped, rfl⟩⟩

/-- The mappings of an index that was read have no name or one of the table. -/
theorem named_of_read (success : read text sources names = .ok index) :
    ∀ mapping ∈ index.mappings,
      mapping.target.name = none ∨ ∃ name ∈ names, mapping.target.name = some (.string name) := by
  obtain ⟨mappings, resolved, rfl⟩ := read_eq_ok.mp success
  intro mapping member
  have listed := (OriginIndex.mappings_ofMappings_perm sources mappings).mem_iff.mp member
  obtain ⟨line, column, name, isTarget, known⟩ :=
    (readable_of_resolveAll resolved mapping listed).target
  rw [isTarget]
  cases name with
  | none => exact Or.inl rfl
  | some name => exact Or.inr ⟨name, known name rfl, rfl⟩

/-- The mappings of an index that was read have coordinates that are reached,
and their names, if they have any, are in the table. -/
theorem reached_of_read (short : ¬Vlq.HasLongValue text.toList)
    (success : read text sources names = .ok index) :
    ∀ mapping ∈ index.mappings, mapping.Reached ∧
      (mapping.target.name = none ∨ ∃ name ∈ names, mapping.target.name = some (.string name)) := by
  intro mapping member
  refine ⟨?_, named_of_read success mapping member⟩
  obtain ⟨mappings, resolved, rfl⟩ := read_eq_ok.mp success
  have listed := (OriginIndex.mappings_ofMappings_perm sources mappings).mem_iff.mp member
  exact reached_of_resolveAll Cursor.reached_start
    (fun token => not_hasLongValue_of_mem_tokens short) resolved mapping listed

/-- An index that was read has no more names than the table. -/
theorem length_names_of_read (success : read text sources names = .ok index) :
    index.names.length ≤ names.length := by
  apply length_eraseDups_le
  intro name member
  rw [OriginIndex.targets_eq] at member
  obtain ⟨target, listed, isName⟩ := List.mem_filterMap.mp member
  obtain ⟨mapping, inside, rfl⟩ := List.mem_map.mp listed
  rcases named_of_read success mapping inside with nothing | ⟨given, known, isGiven⟩
  · simp [Target.name?, nothing] at isName
  · obtain rfl : given = name := by simpa [Target.name?, isGiven, Json.string?] using isName
    exact known

/-- Every check of an index that was read is about a mapping with coordinates
that are reached and a name of the table, if it has one. -/
theorem exists_concerns_of_read (short : ¬Vlq.HasLongValue text.toList)
    (success : read text sources names = .ok index) {check : Check}
    (member : check ∈ index.checks) :
    ∃ mapping, mapping.Reached ∧
      (mapping.target.name = none ∨ ∃ name ∈ names, mapping.target.name = some (.string name)) ∧
      check.Concerns mapping := by
  have filled : index.Filled := by
    obtain ⟨mappings, _, rfl⟩ := read_eq_ok.mp success
    exact OriginIndex.filled_ofMappings sources mappings
  obtain ⟨mapping, listed, concerns⟩ :=
    (OriginIndex.built_read success).sound.exists_concerns filled member
  obtain ⟨reached, name⟩ := reached_of_read short success mapping listed
  exact ⟨mapping, reached, name, concerns⟩

/-- What is checked as a coordinate of an index that was read is a natural
number. -/
theorem coordinate_of_read (short : ¬Vlq.HasLongValue text.toList)
    (success : read text sources names = .ok index) {place : Place} {value : Option Json}
    (member : .coordinate place value ∈ index.checks) :
    ∃ coordinate : Nat, value = some (.number (.ofNat coordinate)) := by
  obtain ⟨mapping, reached, _, concerns⟩ := exists_concerns_of_read short success member
  exact reached.exists_coordinate concerns

/-- What is checked as a name of an index that was read is missing or in the
table. -/
theorem name_of_read (short : ¬Vlq.HasLongValue text.toList)
    (success : read text sources names = .ok index) {place : Place} {value : Option Json}
    (member : .name place value ∈ index.checks) :
    value = none ∨ ∃ name ∈ names, value = some (.string name) := by
  obtain ⟨mapping, _, name, rfl⟩ := exists_concerns_of_read short success member
  exact name

/-- The names of an index that was read pass. -/
theorem name_passes_of_read (short : ¬Vlq.HasLongValue text.toList)
    (success : read text sources names = .ok index) {place : Place} {value : Option Json}
    (member : .name place value ∈ index.checks) : (Check.name place value).Passes :=
  (name_of_read short success member).imp_right fun ⟨name, _, isName⟩ => ⟨name, isName⟩

/-- What can be said of an index that was read from a text without long values.
Every key and every coordinate of a target in it is a natural number, and every
name is missing or a string of the table. The index passes the check exactly if
none of these numbers is beyond the greatest coordinate; otherwise the fault is
that of one that is. And where the tables are no longer than there are
coordinates, writing the index fails exactly if the check does, and with its
fault.

Proof: an index that was read stores no empty list, so each of its checks is
about one of its mappings, and the mappings have coordinates that are reached
and names of the table. -/
theorem check_read (short : ¬Vlq.HasLongValue text.toList)
    (success : read text sources names = .ok index) :
    (∀ place value, .coordinate place value ∈ index.checks →
      ∃ coordinate : Nat, value = some (.number (.ofNat coordinate))) ∧
    (∀ place value, .name place value ∈ index.checks →
      value = none ∨ ∃ name ∈ names, value = some (.string name)) ∧
    (index.check = .ok () ↔ ∀ place (coordinate : Nat),
      .coordinate place (some (.number (.ofNat coordinate))) ∈ index.checks →
        coordinate ≤ Coordinate.greatest) ∧
    (∀ fault, index.check = .error fault → ∃ place, ∃ coordinate > Coordinate.greatest,
      .coordinate place (some (.number (.ofNat coordinate))) ∈ index.checks ∧
        fault = .invalidPosition place (.notCoordinate (some (.number (.ofNat coordinate))))) ∧
    (sources.length ≤ Coordinate.greatest + 1 → names.length ≤ Coordinate.greatest + 1 →
      ∀ fault, write index = .error fault ↔ index.check = .error fault) := by
  refine ⟨fun place value => coordinate_of_read short success,
    fun place value => name_of_read short success, ?_, ?_, ?_⟩
  · rw [OriginIndex.check_eq_ok_iff]
    constructor
    · intro passes place coordinate member
      exact Check.passes_coordinate_ofNat.mp (passes _ member)
    · rintro bounded (⟨place, value⟩ | ⟨place, value⟩) member
      · obtain ⟨coordinate, rfl⟩ := coordinate_of_read short success member
        exact Check.passes_coordinate_ofNat.mpr (bounded place coordinate member)
      · exact name_passes_of_read short success member
  · intro fault refused
    obtain ⟨before, check, after, split, _, fails, rfl⟩ :=
      OriginIndex.check_eq_error_iff.mp refused
    have member : check ∈ index.checks := by simp [split]
    cases check with
    | coordinate place value =>
      obtain ⟨coordinate, rfl⟩ := coordinate_of_read short success member
      exact ⟨place, coordinate,
        not_le.mp fun inside => fails (Check.passes_coordinate_ofNat.mpr inside), member, rfl⟩
    | name place value => exact absurd (name_passes_of_read short success member) fails
  · intro sourcesFit namesFit fault
    have sourcesWritten : index.sourceNames.length ≤ Coordinate.greatest + 1 := by
      rw [sourceNames_of_read success]
      exact (length_eraseDups_le fun _ => id).trans sourcesFit
    have namesWritten := (length_names_of_read success).trans namesFit
    rw [write_eq_error_iff sourcesWritten namesWritten, OriginIndex.check, Walk.map_eq_error]

/-- Two targets of one origin, the second one a step of one column after the
first. -/
def steppedIndex : OriginIndex :=
  (OriginIndex.empty ["a.js"]).append "a.js" 0 0 [.placed 0 2 none, .placed 0 3 none]

/-- Read from two segments, it passes the check and is written. -/
theorem check_read_steppedIndex :
    ∃ index written, read "EAAA,CAAA" ["a.js"] [] = .ok index ∧ index.check = .ok () ∧
      write index = .ok written := by
  have success : read "EAAA,CAAA" ["a.js"] [] = .ok steppedIndex := by cbv
  have short : ¬Vlq.HasLongValue "EAAA,CAAA".toList :=
    Vlq.not_hasLongValue_of_length_le (by decide)
  obtain ⟨_, _, accepts, _, writes⟩ := check_read short success
  have listed : steppedIndex.checks =
      [.coordinate (.line "a.js" 0) (some (.number 0)),
        .coordinate (.column "a.js" 0 0) (some (.number 0)),
        .coordinate (.target "a.js" 0 0 0 .line) (some (.number 0)),
        .coordinate (.target "a.js" 0 0 0 .column) (some (.number 2)),
        .name (.target "a.js" 0 0 0 .name) none,
        .coordinate (.target "a.js" 0 0 1 .line) (some (.number 0)),
        .coordinate (.target "a.js" 0 0 1 .column) (some (.number 3)),
        .name (.target "a.js" 0 0 1 .name) none] := by cbv
  have valid : steppedIndex.check = .ok () := accepts.mpr (by
    intro place coordinate member
    simp only [listed, List.mem_cons, Check.coordinate.injEq, Option.some.injEq, Json.number.injEq,
      reduceCtorEq, List.not_mem_nil, or_false, false_or] at member
    rcases member with ⟨_, same⟩ | ⟨_, same⟩ | ⟨_, same⟩ | ⟨_, same⟩ | ⟨_, same⟩ | ⟨_, same⟩ <;>
      exact (Number.ofNat_injective same).le.trans (by decide))
  cases outcome : write steppedIndex with
  | ok written => exact ⟨_, written, success, valid, outcome⟩
  | error fault =>
    rw [writes (by decide) (by decide), valid] at outcome
    cases outcome

/-- A column past the greatest one is reached in two steps. The index is read,
but it does not pass the check and is not written. -/
theorem read_past_greatest :
    ∃ index, read "+/////////HAAA,CAAA" ["a.js"] [] = .ok index ∧
      index.check = .error (.invalidPosition (.target "a.js" 0 0 1 .column)
        (.notCoordinate (some (.number (.ofNat (Coordinate.greatest + 1)))))) ∧
      write index = .error (.invalidPosition (.target "a.js" 0 0 1 .column)
        (.notCoordinate (some (.number (.ofNat (Coordinate.greatest + 1)))))) := by
  have split : tokens "+/////////HAAA,CAAA".toList =
      [⟨0, 0, "+/////////HAAA".toList⟩, ⟨0, 1, "CAAA".toList⟩] := by cbv
  have firstRun : Vlq.readRun "+/////////HAAA".toList =
      .ok [.ofNat 4503599627370495, 0, 0, 0] := by decide +kernel
  have firstStep : Cursor.start.step [.ofNat 4503599627370495, 0, 0, 0] ["a.js"] []
        ⟨some 0, some 0, some "+/////////HAAA"⟩ =
      .ok (⟨.ofNat 4503599627370495, "a.js", 0, 0, none⟩, ⟨.ofNat 4503599627370495, 0, 0, 0, 0⟩) :=
    Walk.eq_ok_of_toOption (by decide +kernel)
  have secondRun : Vlq.readRun "CAAA".toList = .ok [1, 0, 0, 0] := by decide +kernel
  have secondStep : Cursor.step ⟨.ofNat 4503599627370495, 0, 0, 0, 0⟩ [1, 0, 0, 0] ["a.js"] []
        ⟨some 0, some 1, some "CAAA"⟩ =
      .ok (⟨.ofNat 4503599627370496, "a.js", 0, 0, none⟩, ⟨.ofNat 4503599627370496, 0, 0, 0, 0⟩) :=
    Walk.eq_ok_of_toOption (by decide +kernel)
  have first : Token.resolve ["a.js"] [] .start ⟨0, 0, "+/////////HAAA".toList⟩ = _ :=
    Token.resolve_eq_ok firstRun firstStep
  have second : Token.resolve ["a.js"] [] _ ⟨0, 1, "CAAA".toList⟩ = _ :=
    Token.resolve_eq_ok secondRun secondStep
  have resolved : resolveAll ["a.js"] [] .start (tokens "+/////////HAAA,CAAA".toList) =
      .ok [⟨"a.js", 0, 0, .placed 0 (.ofNat 4503599627370495) none⟩,
        ⟨"a.js", 0, 0, .placed 0 (.ofNat 4503599627370496) none⟩] := by
    rw [split]
    exact Walk.bind_eq_ok.mpr ⟨_, first, Walk.bind_eq_ok.mpr ⟨_, Walk.bind_eq_ok.mpr
      ⟨_, second, rfl⟩, rfl⟩⟩
  exact ⟨_, read_eq_ok.mpr ⟨_, resolved, rfl⟩, by cbv, by cbv⟩

end Mappings
end SourceMap

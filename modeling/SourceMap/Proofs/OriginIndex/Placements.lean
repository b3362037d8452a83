import SourceMap.OriginIndex.Placement
import SourceMap.Proofs.OriginIndex.Listing
import SourceMap.Proofs.Walk

/-!
# Placements and mappings

The walk over an index, where it ends, yields one placement for each mapping of
the index, in the same order. All coordinates of a placement are in range, so
nothing is lost between the two: under any names for the sources a placement
stands for its mapping.

A placement knows its source by number only. The names are those of a document,
which may differ from those of the index; so a placement is turned into a mapping
under a list of names as long as the list of sources, and the result is stated for
every such list. The levels of the walk are taken one by one, each from the one
below by `Walk.of_flatMapM`.
-/

namespace SourceMap

/-- The name of a target, if it is a string. -/
def Target.name? (target : Target) : Option String := target.name.bind Json.string?

/-- A target that was placed with a name, or without one, has it. -/
@[simp] theorem Target.name?_placed (line column : Number) (name : Option String) :
    (Target.placed line column name).name? = name := by
  cases name <;> rfl

/-- A target has a name exactly if that is a string. -/
theorem Target.name?_eq_some_iff {target : Target} {name : String} :
    target.name? = some name ↔ target.name = some (.string name) := by
  rw [Target.name?, Option.bind_eq_some_iff]
  constructor
  · rintro ⟨value, given, isString⟩
    cases value with
    | string text =>
      obtain rfl := Option.some.inj isString
      exact given
    | _ => cases isString
  · exact fun given => ⟨_, given, rfl⟩

/-- The names of the targets of an index, each once, in the order of their first
use. -/
def OriginIndex.names (index : OriginIndex) : List String :=
  (index.targets.filterMap Target.name?).eraseDups

namespace Placement

/-- Whether all coordinates of a placement are in range. -/
structure InRange (placement : Placement) : Prop where
  originalLine : placement.originalLine ≤ Coordinate.greatest
  originalColumn : placement.originalColumn ≤ Coordinate.greatest
  generatedLine : placement.generatedLine ≤ Coordinate.greatest
  generatedColumn : placement.generatedColumn ≤ Coordinate.greatest

/-- The target that a placement places. -/
def target (placement : Placement) : Target :=
  .placed (.ofNat placement.generatedLine) (.ofNat placement.generatedColumn) placement.name

/-- The mapping that a placement stands for under names for the sources. -/
def mapping (names : List String) (placement : Placement) : Mapping where
  source := names[placement.source]?.getD ""
  line := .ofNat placement.originalLine
  column := .ofNat placement.originalColumn
  target := placement.target

/-- The name of a placed target. -/
theorem name?_target (placement : Placement) : placement.target.name? = placement.name :=
  Target.name?_placed _ _ _

/-- A value passes as a coordinate exactly if it is one: a number, whole and
within the bound. What is absent, of another type or out of bounds does not pass;
which of these it was is a matter of the fault only. -/
theorem coordinate_eq_ok {place : Place} {value : Option Json} {coordinate : Nat} :
    Placement.coordinate place value = .ok coordinate ↔
      value = some (.number (.ofNat coordinate)) ∧ coordinate ≤ Coordinate.greatest := by
  have number (json : Json) (number : Number) :
      json.number? = some number ↔ json = .number number := by
    cases json <;> simp [Json.number?]
  unfold Placement.coordinate
  split
  · rename_i found read
    obtain ⟨read, inRange⟩ : value = some (.number (.ofNat found)) ∧
        found ≤ Coordinate.greatest := by
      obtain ⟨held, present, isCoordinate⟩ := Option.bind_eq_some_iff.mp read
      obtain ⟨json, rfl, isNumber⟩ := Option.bind_eq_some_iff.mp present
      obtain ⟨rfl, bounded⟩ := Number.coordinate?_eq_some_iff.mp isCoordinate
      exact ⟨congrArg some ((number json _).mp isNumber), bounded⟩
    constructor
    · intro same
      obtain rfl := Except.ok.inj same
      exact ⟨read, inRange⟩
    · rintro ⟨again, _⟩
      rw [again, Option.some.injEq, Json.number.injEq] at read
      rw [Number.ofNat_injective read]
  · rename_i nothing
    constructor
    · intro same
      cases same
    · rintro ⟨rfl, bounded⟩
      rw [Option.bind_some, Json.number?, Option.bind_some,
        Number.coordinate?_eq_some_iff.mpr ⟨rfl, bounded⟩] at nothing
      cases nothing

/-- A value passes as a name exactly if it is missing or a string. -/
theorem checkName_eq_ok {place : Place} {value : Option Json} {name : Option String} :
    Placement.checkName place value = .ok name ↔ value = name.map .string := by
  unfold Placement.checkName
  split <;> cases name <;> simp_all

end Placement

namespace OriginIndex

/-- The placements of a column place its targets, in order, at its origin. -/
theorem targetPlacements_eq_ok {source : String × Nat} {line column : Number}
    {originalLine originalColumn : Nat} {targets : List Target} {placements : List Placement}
    (lineBounded : originalLine ≤ Coordinate.greatest)
    (columnBounded : originalColumn ≤ Coordinate.greatest)
    (success : targetPlacements source line column originalLine originalColumn targets =
      .ok placements) (names : List String) :
    placements.map (Placement.mapping names) =
        targets.map (Mapping.mk (names[source.2]?.getD "") (.ofNat originalLine)
          (.ofNat originalColumn)) ∧
      ∀ placement ∈ placements, placement.InRange ∧ placement.source = source.2 := by
  rw [← Walk.map_zipIdx_fst _ targets]
  apply Walk.of_mapM success
  rintro ⟨target, number⟩ _ placement success
  obtain ⟨generatedLine, lineRead, success⟩ := Walk.bind_eq_ok.mp success
  obtain ⟨generatedColumn, columnRead, success⟩ := Walk.bind_eq_ok.mp success
  obtain ⟨name, nameRead, success⟩ := Walk.bind_eq_ok.mp success
  obtain rfl := Except.ok.inj success
  obtain ⟨lineIs, generatedLineBounded⟩ := Placement.coordinate_eq_ok.mp lineRead
  obtain ⟨columnIs, generatedColumnBounded⟩ := Placement.coordinate_eq_ok.mp columnRead
  have nameIs := Placement.checkName_eq_ok.mp nameRead
  refine ⟨?_, ⟨lineBounded, columnBounded, generatedLineBounded, generatedColumnBounded⟩, rfl⟩
  simp only [Placement.mapping, Placement.target, Target.placed, ← lineIs, ← columnIs, ← nameIs]

/-- The placements of a line stand for the mappings of its columns. -/
theorem columnPlacements_eq_ok {source : String × Nat} {line : Number} {originalLine : Nat}
    {columns : ColumnTable} {placements : List Placement}
    (lineBounded : originalLine ≤ Coordinate.greatest)
    (success : columnPlacements source line originalLine columns = .ok placements)
    (names : List String) :
    placements.map (Placement.mapping names) =
        ColumnTable.mappings columns (names[source.2]?.getD "") (.ofNat originalLine) ∧
      ∀ placement ∈ placements, placement.InRange ∧ placement.source = source.2 := by
  apply Walk.of_flatMapM success
  rintro ⟨column, targets⟩ _ part success
  obtain ⟨originalColumn, columnRead, success⟩ := Walk.bind_eq_ok.mp success
  obtain ⟨columnIs, columnBounded⟩ := Placement.coordinate_eq_ok.mp columnRead
  rw [Option.some.injEq, Json.number.injEq] at columnIs
  subst columnIs
  exact targetPlacements_eq_ok lineBounded columnBounded success names

/-- The placements of a source stand for the mappings of its lines. -/
theorem linePlacements_eq_ok {source : String × Nat} {lines : LineTable}
    {placements : List Placement} (success : linePlacements source lines = .ok placements)
    (names : List String) :
    placements.map (Placement.mapping names) = lines.mappings (names[source.2]?.getD "") ∧
      ∀ placement ∈ placements, placement.InRange ∧ placement.source = source.2 := by
  apply Walk.of_flatMapM success
  rintro ⟨line, columns⟩ _ part success
  obtain ⟨originalLine, lineRead, success⟩ := Walk.bind_eq_ok.mp success
  obtain ⟨lineIs, lineBounded⟩ := Placement.coordinate_eq_ok.mp lineRead
  rw [Option.some.injEq, Json.number.injEq] at lineIs
  subst lineIs
  exact columnPlacements_eq_ok lineBounded success names

/-- The placements of an index stand for its mappings, under any names for its
sources, and all that they hold is in range.

Proof: the sources are walked with their places, and the name at a place is that
of the list of names. The lines of a source then stand for its mappings under
that name by `linePlacements_eq_ok`. -/
theorem placements_eq_ok {index : OriginIndex} {placements : List Placement}
    (success : index.placements = .ok placements) {names : List String}
    (named : names.length = index.sourceNames.length) :
    placements.map (Placement.mapping names) = index.mappingsUnder names ∧
      ∀ placement ∈ placements,
        placement.InRange ∧ placement.source < index.sourceNames.length := by
  have count : index.sourceNames.length = index.sources.entries.length := by
    simp [sourceNames, OrderedMap.keys]
  have numbered : index.sources.entries.zip names =
      index.sources.entries.zipIdx.map fun entry => (entry.1, names[entry.2]?.getD "") := by
    apply List.ext_getElem (by simp [named, count])
    intro place inZip inNumbered
    have inside : place < names.length := by
      simp only [List.length_zip] at inZip
      omega
    simp [inside]
  rw [mappingsUnder, numbered, List.flatMap_map]
  apply Walk.of_flatMapM success
  rintro ⟨⟨source, lines⟩, number⟩ listed part success
  obtain ⟨viewed, shared⟩ := linePlacements_eq_ok success names
  refine ⟨viewed, fun placement member => ?_⟩
  obtain ⟨inRange, same⟩ := shared placement member
  refine ⟨inRange, ?_⟩
  rw [same, count]
  simpa using (List.mem_zipIdx listed).2.1

end OriginIndex
end SourceMap

import SourceMap.Proofs.OriginIndex.Adding
import SourceMap.Proofs.OriginIndex.Checks

/-!
# Indexes in range

The checks of an index are made key by key and target by target. In an index that
stores no empty list every key belongs to a mapping, so that what is checked is
what the mappings hold, and the index passes exactly if all of its mappings are in
range.

Without that condition only one direction holds. A line or a column of an empty
list is checked like any other although no mapping has it, so an index may fail at
a key that its mappings do not show. Indexes that were read from a text store no
empty list; those that were redirected may.
-/

namespace SourceMap

namespace Mapping

/-- The four coordinates of a mapping: the line and the column of its origin and
those of its target, which may be missing. -/
def coordinates (mapping : Mapping) : List (Option Json) :=
  [some (.number mapping.line), some (.number mapping.column), mapping.target.line,
    mapping.target.column]

/-- Whether all coordinates of a mapping can be written, and its name. -/
structure InRange (mapping : Mapping) : Prop where
  coordinates : ∀ value ∈ mapping.coordinates,
    ∃ coordinate ≤ Coordinate.greatest, value = some (.number (.ofNat coordinate))
  name : mapping.target.name = none ∨ ∃ name, mapping.target.name = some (.string name)

/-- The mapping that a placement in range stands for is in range. -/
theorem inRange_of_placement {placement : Placement} (inRange : placement.InRange)
    (names : List String) : (placement.mapping names).InRange where
  coordinates := by
    intro value member
    simp only [coordinates, List.mem_cons, List.not_mem_nil, or_false] at member
    rcases member with rfl | rfl | rfl | rfl
    · exact ⟨_, inRange.originalLine, rfl⟩
    · exact ⟨_, inRange.originalColumn, rfl⟩
    · exact ⟨_, inRange.generatedLine, rfl⟩
    · exact ⟨_, inRange.generatedColumn, rfl⟩
  name := by
    cases named : placement.name with
    | none => exact Or.inl (by simp [Placement.mapping, Placement.target, Target.placed, named])
    | some name =>
      exact Or.inr ⟨name, by simp [Placement.mapping, Placement.target, Target.placed, named]⟩

end Mapping

/-- Whether a check is one of something that a mapping holds. -/
def Check.Concerns (mapping : Mapping) : Check → Prop
  | .coordinate _ value => value ∈ mapping.coordinates
  | .name _ value => value = mapping.target.name

/-- What a mapping in range holds passes. -/
theorem Check.Concerns.passes {check : Check} {mapping : Mapping}
    (concerns : check.Concerns mapping) (inRange : mapping.InRange) : check.Passes := by
  cases check with
  | coordinate place value => exact inRange.coordinates value concerns
  | name place value =>
    obtain rfl : value = mapping.target.name := concerns
    exact inRange.name

/-- The checks of a target are about the mappings to it. -/
theorem Target.concerns_of_mem_checks {mapping : Mapping} {place : TargetField → Place}
    {check : Check} (member : check ∈ mapping.target.checks place) : check.Concerns mapping := by
  simp only [Target.checks, List.mem_cons, List.not_mem_nil, or_false] at member
  rcases member with rfl | rfl | rfl <;> simp [Check.Concerns, Mapping.coordinates]

/-- The checks of the columns of a line are about their mappings, if each column
has one. -/
theorem ColumnTable.exists_concerns {columns : ColumnTable} {source : String} {line : Number}
    (filled : ∀ entry ∈ columns.entries, entry.2 ≠ []) {check : Check}
    (member : check ∈ columns.checks source line) :
    ∃ mapping ∈ ColumnTable.mappings columns source line, check.Concerns mapping := by
  obtain ⟨⟨column, targets⟩, listed, member⟩ := List.mem_flatMap.mp member
  have mapping_mem {target : Target} (held : target ∈ targets) :
      ⟨source, line, column, target⟩ ∈ ColumnTable.mappings columns source line :=
    List.mem_flatMap.mpr ⟨_, listed, List.mem_map_of_mem held⟩
  rcases List.mem_cons.mp member with rfl | member
  · obtain ⟨target, held⟩ := List.exists_mem_of_ne_nil targets (filled _ listed)
    exact ⟨_, mapping_mem held, by simp [Check.Concerns, Mapping.coordinates]⟩
  · obtain ⟨⟨target, number⟩, numbered, member⟩ := List.mem_flatMap.mp member
    have held : target ∈ targets := List.fst_mem_of_mem_zipIdx numbered
    exact ⟨_, mapping_mem held, Target.concerns_of_mem_checks member⟩

/-- The checks of the lines of a source are about their mappings, if each line
has a column and each column a mapping. -/
theorem LineTable.exists_concerns {lines : LineTable} {source : String}
    (inhabited : ∀ entry ∈ lines.entries, entry.2.entries ≠ [])
    (filled : ∀ entry ∈ lines.entries, ∀ column ∈ entry.2.entries, column.2 ≠ [])
    {check : Check} (member : check ∈ lines.checks source) :
    ∃ mapping ∈ lines.mappings source, check.Concerns mapping := by
  obtain ⟨⟨line, columns⟩, listed, member⟩ := List.mem_flatMap.mp member
  rcases List.mem_cons.mp member with rfl | member
  · obtain ⟨⟨column, targets⟩, there⟩ := List.exists_mem_of_ne_nil _ (inhabited _ listed)
    obtain ⟨target, held⟩ := List.exists_mem_of_ne_nil targets (filled _ listed _ there)
    refine ⟨⟨source, line, column, target⟩, ?_, by simp [Check.Concerns, Mapping.coordinates]⟩
    exact List.mem_flatMap.mpr ⟨_, listed,
      List.mem_flatMap.mpr ⟨_, there, List.mem_map_of_mem held⟩⟩
  · obtain ⟨mapping, inside, concerns⟩ :=
      ColumnTable.exists_concerns (filled _ listed) member
    exact ⟨mapping, List.mem_flatMap.mpr ⟨_, listed, inside⟩, concerns⟩

namespace OriginIndex

/-- Whether an index stores no empty list. -/
def Filled (index : OriginIndex) : Prop :=
  ∀ source line column, index.stored? source line column ≠ some []

/-- An index of mappings stores no empty list. -/
theorem filled_ofMappings (sources : List String) (mappings : List Mapping) :
    (ofMappings sources mappings).Filled := by
  intro source line column stored
  rw [stored?_ofMappings] at stored
  split at stored
  · cases stored
  · rename_i inhabited
    exact inhabited (Option.some.inj stored)

variable {index : OriginIndex}

/-- All checks of an index that stores no empty list are about its mappings. -/
theorem Sound.exists_concerns (sound : index.Sound) (filled : index.Filled) {check : Check}
    (member : check ∈ index.checks) : ∃ mapping ∈ index.mappings, check.Concerns mapping := by
  obtain ⟨⟨source, lines⟩, listed, member⟩ := List.mem_flatMap.mp member
  have found : index.lines? source = some lines :=
    (OrderedMap.mem_entries_iff _ source lines).mp listed
  have linesSound : lines.Sound := sound.lines found
  have value_mem {entry : Number × ColumnTable} (there : entry ∈ lines.entries) :
      entry.2 ∈ lines.values := List.mem_map_of_mem there
  have inhabited : ∀ entry ∈ lines.entries, entry.2.entries ≠ [] := fun entry there =>
    (linesSound.values entry.2 (value_mem there)).2
  have columnsFilled : ∀ entry ∈ lines.entries, ∀ column ∈ entry.2.entries, column.2 ≠ [] := by
    rintro ⟨line, columns⟩ there ⟨column, targets⟩ here nothing
    have columnsSound : ColumnTable.Sound columns := (linesSound.values _ (value_mem there)).1
    have lineFound : lines.get? line = some columns :=
      (OrderedMap.mem_entries_iff _ line columns).mp there
    have columnFound : columns.get? column = some targets :=
      (OrderedMap.mem_entries_iff _ column targets).mp here
    apply filled source line column
    simp [stored?, found, LineTable.stored?, lineFound, columnFound, show targets = [] from nothing]
  obtain ⟨mapping, inside, concerns⟩ :=
    LineTable.exists_concerns inhabited columnsFilled member
  exact ⟨mapping, List.mem_flatMap.mpr ⟨_, listed, inside⟩, concerns⟩

/-- The mappings of an index that passes the check are in range. -/
theorem inRange_of_check (valid : index.check = .ok ()) :
    ∀ mapping ∈ index.mappings, mapping.InRange := by
  obtain ⟨placements, placed, _⟩ := Walk.map_eq_ok.mp valid
  obtain ⟨viewed, inRange⟩ := placements_eq_ok placed rfl
  rw [mappingsUnder_sourceNames] at viewed
  intro mapping member
  rw [← viewed] at member
  obtain ⟨placement, listed, rfl⟩ := List.mem_map.mp member
  exact Mapping.inRange_of_placement (inRange placement listed).1 _

/-- An index that stores no empty list passes the check exactly if its mappings
are in range. -/
theorem Sound.check_eq_ok_iff (sound : index.Sound) (filled : index.Filled) :
    index.check = .ok () ↔ ∀ mapping ∈ index.mappings, mapping.InRange := by
  constructor
  · exact inRange_of_check
  · intro inRange
    rw [OriginIndex.check_eq_ok_iff]
    intro check member
    obtain ⟨mapping, listed, concerns⟩ := sound.exists_concerns filled member
    exact concerns.passes (inRange mapping listed)

end OriginIndex
end SourceMap

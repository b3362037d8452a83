import SourceMap.Proofs.OriginIndex.Invariant

/-!
# Indexes as lists of mappings

A mapping is one entry of an index: an origin and a target that stems from there.
A sound index is the list of its mappings, cut up by origin, and an index that is
made by adding mappings one after the other holds at each origin those that stem
from it, in the order in which they were added.

The list of mappings is the view in which indexes are compared across the writing
and reading of a text, where tables do not survive. It loses two things: sources,
lines and columns without targets, and the order of the table of sources. A naming
may give two sources one name; `mappingsUnder` lists the mappings of an index
under other names, and an origin then has the targets of all sources that share
its name.
-/

namespace SourceMap

/-- An origin and one target that stems from there. -/
structure Mapping (σ : Type := String) where
  source : σ
  line : Number
  column : Number
  target : Target

namespace Mapping

/-- Whether a mapping stems from an origin. -/
def isAt (source : String) (line column : Number) (mapping : Mapping) : Bool :=
  decide (mapping.source = source ∧ mapping.line = line ∧ mapping.column = column)

/-- The targets of the mappings that stem from an origin, in their order. -/
def targetsAt (mappings : List Mapping) (source : String) (line column : Number) : List Target :=
  (mappings.filter (isAt source line column)).map target

/-- Mappings that all stem from elsewhere hold nothing for an origin. -/
theorem targetsAt_eq_nil {mappings : List Mapping} {source : String} {line column : Number}
    (elsewhere : ∀ mapping ∈ mappings,
      ¬(mapping.source = source ∧ mapping.line = line ∧ mapping.column = column)) :
    targetsAt mappings source line column = [] := by
  rw [targetsAt, List.map_eq_nil_iff, List.filter_eq_nil_iff]
  intro mapping member
  simpa [isAt] using elsewhere mapping member

/-- Selecting by origin goes through a list of mappings part by part. -/
theorem targetsAt_append (left right : List Mapping) (source : String) (line column : Number) :
    targetsAt (left ++ right) source line column =
      targetsAt left source line column ++ targetsAt right source line column := by
  simp [targetsAt]

/-- Selecting by origin goes through groups of mappings group by group. -/
theorem targetsAt_flatMap {α : Type} (groups : List α) (mappings : α → List Mapping)
    (source : String) (line column : Number) :
    targetsAt (groups.flatMap mappings) source line column =
      groups.flatMap fun group => targetsAt (mappings group) source line column := by
  simp [targetsAt, List.filter_flatMap, List.map_flatMap]

end Mapping

namespace ColumnTable

/-- The mappings of the columns of one line. -/
def mappings (columns : ColumnTable) (source : String) (line : Number) : List Mapping :=
  columns.entries.flatMap fun entry => entry.2.map fun target => ⟨source, line, entry.1, target⟩

/-- The mappings of the columns of a line stem from it. -/
theorem origin_of_mem_mappings {columns : ColumnTable} {source : String} {line : Number}
    {mapping : Mapping} (member : mapping ∈ mappings columns source line) :
    mapping.source = source ∧ mapping.line = line := by
  obtain ⟨entry, _, listed⟩ := List.mem_flatMap.mp member
  obtain ⟨target, _, rfl⟩ := List.mem_map.mp listed
  exact ⟨rfl, rfl⟩

/-- The columns of a line hold the mappings that stem from there. -/
theorem targetsAt_mappings (columns : ColumnTable) (source : String) (line column : Number) :
    Mapping.targetsAt (mappings columns source line) source line column =
      (columns.get? column).getD [] := by
  rw [mappings, Mapping.targetsAt_flatMap, OrderedMap.flatMap_eq_of_get? columns column]
  · cases columns.get? column with
    | none => rfl
    | some targets => simp [Mapping.targetsAt, Mapping.isAt, List.filter_map, Function.comp_def]
  · rintro ⟨other, targets⟩ _ different
    apply Mapping.targetsAt_eq_nil
    intro mapping member
    obtain ⟨target, _, rfl⟩ := List.mem_map.mp member
    exact fun same => different same.2.2

end ColumnTable

namespace LineTable

/-- The mappings of the lines of one source, in the order of their origins. -/
def mappings (lines : LineTable) (source : String) : List Mapping :=
  lines.entries.flatMap fun entry => ColumnTable.mappings entry.2 source entry.1

/-- The mappings of the lines of a source stem from it. -/
theorem source_of_mem_mappings {lines : LineTable} {source : String} {mapping : Mapping}
    (member : mapping ∈ lines.mappings source) : mapping.source = source := by
  obtain ⟨entry, _, listed⟩ := List.mem_flatMap.mp member
  exact (ColumnTable.origin_of_mem_mappings listed).1

/-- Mappings of one source stem from no other. -/
theorem targetsAt_mappings_of_ne {source other : String} (different : other ≠ source)
    (lines : LineTable) (line column : Number) :
    Mapping.targetsAt (lines.mappings other) source line column = [] := by
  apply Mapping.targetsAt_eq_nil
  intro mapping member same
  exact different ((source_of_mem_mappings member).symm.trans same.1)

/-- The lines of a source hold the mappings that stem from there. -/
theorem targetsAt_mappings (lines : LineTable) (source : String) (line column : Number) :
    Mapping.targetsAt (lines.mappings source) source line column = lines.targetsAt line column := by
  rw [mappings, Mapping.targetsAt_flatMap, OrderedMap.flatMap_eq_of_get? lines line,
    LineTable.targetsAt]
  · cases lines.get? line with
    | none => rfl
    | some columns => simpa using ColumnTable.targetsAt_mappings columns source line column
  · rintro ⟨other, columns⟩ _ different
    apply Mapping.targetsAt_eq_nil
    intro mapping member same
    exact different ((ColumnTable.origin_of_mem_mappings member).2.symm.trans same.2.1)

end LineTable

namespace OriginIndex

/-- The mappings of an index, in the order of their origins. -/
def mappings (index : OriginIndex) : List Mapping :=
  index.sources.entries.flatMap fun entry => entry.2.mappings entry.1

/-- The mappings of an index whose sources go by other names, given in the order
of the sources. -/
def mappingsUnder (index : OriginIndex) (names : List String) : List Mapping :=
  (index.sources.entries.zip names).flatMap fun entry => entry.1.2.mappings entry.2

/-- An index goes by its own names. -/
theorem mappingsUnder_sourceNames (index : OriginIndex) :
    index.mappingsUnder index.sourceNames = index.mappings := by
  rw [mappingsUnder, mappings, sourceNames, OrderedMap.keys]
  induction index.sources.entries with
  | nil => rfl
  | cons entry rest inductionHypothesis =>
    rw [List.map_cons, List.zip_cons_cons, List.flatMap_cons, List.flatMap_cons,
      inductionHypothesis]

/-- The targets of an origin are those of the mappings that stem from there. -/
theorem targetsAt_mappings (index : OriginIndex) (source : String) (line column : Number) :
    Mapping.targetsAt index.mappings source line column = index.targetsAt source line column := by
  rw [mappings, Mapping.targetsAt_flatMap, OrderedMap.flatMap_eq_of_get? index.sources source,
    OriginIndex.targetsAt, lines?]
  · cases index.sources.get? source with
    | none => rfl
    | some lines => simpa using lines.targetsAt_mappings source line column
  · rintro ⟨other, lines⟩ _ different
    exact LineTable.targetsAt_mappings_of_ne different lines line column

/-- Under other names an origin has the targets of all sources that share its
name, one source after the other in the order of the index. -/
theorem targetsAt_mappingsUnder (index : OriginIndex) (names : List String) (name : String)
    (line column : Number) :
    Mapping.targetsAt (index.mappingsUnder names) name line column =
      ((index.sourceNames.zip names).filter fun pair => pair.2 = name).flatMap fun pair =>
        index.targetsAt pair.1 line column := by
  have each : ∀ pair ∈ index.sources.entries.zip names,
      Mapping.targetsAt (pair.1.2.mappings pair.2) name line column =
        if pair.2 = name then index.targetsAt pair.1.1 line column else [] := by
    rintro ⟨⟨source, lines⟩, given⟩ member
    have listed : (source, lines) ∈ index.sources.entries := (List.of_mem_zip member).1
    have found : index.lines? source = some lines :=
      (OrderedMap.mem_entries_iff _ source lines).mp listed
    by_cases same : given = name
    · subst same
      have rows := lines.targetsAt_mappings given line column
      simpa [OriginIndex.targetsAt, found] using rows
    · simpa [same] using LineTable.targetsAt_mappings_of_ne same lines line column
  rw [mappingsUnder, Mapping.targetsAt_flatMap, List.flatMap_congr each, sourceNames,
    OrderedMap.keys, List.zip_map_left]
  generalize index.sources.entries.zip names = pairs
  clear each
  induction pairs with
  | nil => rfl
  | cons pair rest inductionHypothesis =>
    by_cases same : pair.2 = name
    · simp [same, inductionHypothesis]
    · simp [same, inductionHypothesis]

/-- All targets of an index are those of its mappings. -/
theorem targets_eq (index : OriginIndex) : index.targets = index.mappings.map Mapping.target := by
  simp [targets, mappings, LineTable.targets, LineTable.mappings, ColumnTable.mappings,
    OrderedMap.values, List.map_flatMap, List.flatMap_map, List.flatten_eq_flatMap,
    Function.comp_def]

/-- An index has as many targets as mappings. -/
theorem count_eq (index : OriginIndex) : index.count = index.mappings.length := by
  rw [count, targets_eq, List.length_map]

end OriginIndex

/-- Appending to a column adds the mappings of its new targets. -/
theorem ColumnTable.mappings_insert_perm (columns : ColumnTable) (source : String)
    (line column : Number) (targets : List Target) :
    (ColumnTable.mappings (columns.insert column ((columns.get? column).getD [] ++ targets))
      source line).Perm
      (targets.map (fun target => Mapping.mk source line column target) ++
        ColumnTable.mappings columns source line) := by
  apply OrderedMap.flatMap_insert_perm _ _
  cases columns.get? column with
  | none => simp
  | some present => simpa using List.perm_append_comm

/-- Appending to a line adds the mappings of its new targets. -/
theorem LineTable.mappings_append_perm (lines : LineTable) (source : String)
    (line column : Number) (targets : List Target) :
    ((lines.append line column targets).mappings source).Perm
      (targets.map (fun target => Mapping.mk source line column target) ++
        lines.mappings source) := by
  apply OrderedMap.flatMap_insert_perm _ _
  cases lines.get? line with
  | none => exact ColumnTable.mappings_insert_perm OrderedMap.empty source line column targets
  | some columns => exact ColumnTable.mappings_insert_perm columns source line column targets

/-- Appending to an index adds the mappings of the new targets. -/
theorem OriginIndex.mappings_append_perm (index : OriginIndex) (source : String)
    (line column : Number) (targets : List Target) :
    (index.append source line column targets).mappings.Perm
      (targets.map (fun target => Mapping.mk source line column target) ++ index.mappings) := by
  apply OrderedMap.flatMap_insert_perm _ _
  change (((((index.lines? source).getD .empty).append line column targets).mappings source).Perm
    (_ ++ ((index.lines? source).map fun lines => lines.mappings source).getD []))
  cases index.lines? source with
  | none => exact LineTable.mappings_append_perm .empty source line column targets
  | some lines => exact lines.mappings_append_perm source line column targets

end SourceMap

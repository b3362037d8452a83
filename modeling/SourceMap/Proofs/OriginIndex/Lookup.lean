import SourceMap.Proofs.OriginIndex.Counting

/-!
# Look-up in indexes of origins

What is stored at an origin after each operation on an index: an operation shows
at the origin it works on and nowhere else. The laws hold for every index, however
it came about and whatever its keys are, the undefined number among them.

What is stored is a list that may be empty, or nothing. The targets of an origin
do not tell the two apart, but two equal indexes must agree on it: making sure of
a column stores an empty list, and redirecting can leave one. So the laws are
about what is stored, and those about targets follow from them.
-/

namespace SourceMap

namespace LineTable

/-- The list stored at a line and a column, if there is one; it may be empty. -/
def stored? (lines : LineTable) (line column : Number) : Option (List Target) :=
  (lines.get? line).bind fun columns => columns.get? column

/-- The targets at a line and a column are those of the list stored there. -/
theorem targetsAt_eq (lines : LineTable) (line column : Number) :
    lines.targetsAt line column = (lines.stored? line column).getD [] := rfl

/-- Nothing is stored in a table without lines. -/
@[simp] theorem stored?_empty (line column : Number) :
    stored? OrderedMap.empty line column = none := rfl

/-- Appending changes the list at one place only, and puts one there if there
was none. -/
theorem stored?_append (lines : LineTable) (line column : Number) (targets : List Target)
    (otherLine otherColumn : Number) :
    (lines.append line column targets).stored? otherLine otherColumn =
      if otherLine = line ∧ otherColumn = column then some (lines.targetsAt line column ++ targets)
      else lines.stored? otherLine otherColumn := by
  simp only [append, stored?, OrderedMap.get?_insert]
  by_cases sameLine : otherLine = line
  · subst sameLine
    rw [if_pos rfl, Option.bind_some, OrderedMap.get?_insert]
    by_cases sameColumn : otherColumn = column
    · subst sameColumn
      cases found : lines.get? otherLine with
      | none => simp [targetsAt, found]
      | some columns => simp [targetsAt, found]
    · cases found : lines.get? otherLine with
      | none => simp [sameColumn]
      | some columns => simp [sameColumn]
  · simp [sameLine]

/-- Appending makes sure of one line and leaves it at that. -/
theorem mem_keys_append (lines : LineTable) (line column : Number) (targets : List Target)
    (other : Number) :
    other ∈ (lines.append line column targets).keys ↔ other = line ∨ other ∈ lines.keys :=
  OrderedMap.mem_keys_insert _ _ _ _

end LineTable

namespace OriginIndex

/-- The list stored at an origin, if there is one; it may be empty. -/
def stored? (index : OriginIndex) (source : String) (line column : Number) : Option (List Target) :=
  (index.lines? source).bind fun lines => lines.stored? line column

/-- The targets of an origin are those of the list stored there. -/
theorem targetsAt_eq (index : OriginIndex) (source : String) (line column : Number) :
    index.targetsAt source line column = (index.stored? source line column).getD [] := by
  rw [targetsAt, stored?]
  cases index.lines? source with
  | none => rfl
  | some lines => exact lines.targetsAt_eq line column

/-- A source is listed exactly if it has lines. -/
theorem mem_sourceNames_iff (index : OriginIndex) (source : String) :
    source ∈ index.sourceNames ↔ (index.lines? source).isSome = true :=
  OrderedMap.mem_keys_iff index.sources source

/-- Setting the lines of a source leaves the other sources alone. -/
theorem lines?_setLines (index : OriginIndex) (source : String) (lines : LineTable)
    (other : String) :
    (index.setLines source lines).lines? other =
      if other = source then some lines else index.lines? other :=
  OrderedMap.get?_insert index.sources source lines other

/-- Making sure of a source gives it no lines and leaves those of every source
alone. -/
theorem lines?_includeSource (index : OriginIndex) (source other : String) :
    (index.includeSource source).lines? other =
      if other = source then some ((index.lines? source).getD .empty) else index.lines? other := by
  unfold includeSource
  cases found : index.lines? source with
  | some lines =>
    by_cases same : other = source
    · simp [same, found]
    · simp [same]
  | none => simp [lines?_setLines]

/-- Appending sets the lines of one source. -/
theorem lines?_append (index : OriginIndex) (source : String) (line column : Number)
    (targets : List Target) (other : String) :
    (index.append source line column targets).lines? other =
      if other = source then
        some (((index.lines? source).getD .empty).append line column targets)
      else index.lines? other :=
  lines?_setLines _ _ _ _

/-- Making sure of a source stores nothing. -/
theorem stored?_includeSource (index : OriginIndex) (source other : String)
    (line column : Number) :
    (index.includeSource source).stored? other line column = index.stored? other line column := by
  rw [stored?, lines?_includeSource]
  by_cases same : other = source
  · subst same
    cases found : index.lines? other with
    | none => simp [stored?, found]
    | some lines => simp [stored?, found]
  · simp [stored?, same]

/-- Appending changes the list at one origin only, and puts one there if there
was none. -/
theorem stored?_append (index : OriginIndex) (source : String) (line column : Number)
    (targets : List Target) (otherSource : String) (otherLine otherColumn : Number) :
    (index.append source line column targets).stored? otherSource otherLine otherColumn =
      if otherSource = source ∧ otherLine = line ∧ otherColumn = column then
        some (index.targetsAt source line column ++ targets)
      else index.stored? otherSource otherLine otherColumn := by
  rw [stored?, lines?_append]
  by_cases same : otherSource = source
  · subst same
    rw [if_pos rfl, Option.bind_some, LineTable.stored?_append]
    cases found : index.lines? otherSource with
    | none => simp [stored?, targetsAt, found, LineTable.targetsAt_eq]
    | some lines => simp [stored?, targetsAt, found]
  · simp [stored?, same]

/-- Appending to a source that is there leaves the list of sources as it is. -/
theorem sourceNames_append {index : OriginIndex} {source : String}
    (present : source ∈ index.sourceNames) (line column : Number) (targets : List Target) :
    (index.append source line column targets).sourceNames = index.sourceNames :=
  OrderedMap.keys_insert_present _ present

end OriginIndex
end SourceMap

import SourceMap.Fault
import SourceMap.OrderedMap
import SourceMap.OriginIndex.Order

/-!
# Indexes of origins

The meaning of a source map, organised by origin: a source, a line and a column in
it lead to the list of generated positions that stem from there, in the order in
which they were added. Sources follow a list given at the start, lines and columns
their numeric order.

The three levels are ordered maps of one kind, `OrderedMap`, with different
comparisons. Lines and columns are numbers of any kind, the undefined one
included, and a target is kept as it was handed in; nothing is checked before an
index is written. Appending is the one way in which a list of targets grows, and
it appends at the end, so the lists tell in which order additions came.
-/

namespace SourceMap

/-- A position in a generated file, as it was handed in: a field may be missing
or hold any value, and only writing the mappings insists on coordinates and a
string. -/
structure Target where
  line : Option Json
  column : Option Json
  name : Option Json
deriving Inhabited

namespace Target

/-- The target at a line and a column, perhaps named. -/
def placed (line column : Number) (name : Option String) : Target :=
  ⟨some (.number line), some (.number column), name.map .string⟩

/-- The line, if it is a number. -/
def lineNumber? (target : Target) : Option Number := target.line.bind Json.number?

/-- The column, if it is a number. -/
def columnNumber? (target : Target) : Option Number := target.column.bind Json.number?

end Target

/-- The targets of the columns of one original line. -/
abbrev ColumnTable := OrderedMap Number.compare? (List Target)

/-- The column tables of the lines of one source. -/
abbrev LineTable := OrderedMap Number.compare? ColumnTable

/-- The line tables of all sources, in the order that a list of sources gives.
The list is part of the index, and the type of the table depends on it: two
indexes under different lists cannot share a table. -/
structure OriginIndex (σ : Type := String) [DecidableEq σ] [SourceKey σ] where
  order : List σ
  sources : OrderedMap (compareSources order) LineTable

namespace LineTable

/-- The targets at a line and a column; none where nothing was added. -/
def targetsAt (lines : LineTable) (line column : Number) : List Target :=
  ((lines.get? line).bind fun columns => columns.get? column).getD []

/-- Append targets at a line and a column. The column is there afterwards even
when nothing is appended. -/
def append (lines : LineTable) (line column : Number) (targets : List Target) : LineTable :=
  let columns := (lines.get? line).getD .empty
  let present := (columns.get? column).getD []
  lines.insert line (columns.insert column (present ++ targets))

/-- All targets, in the order of their origins. -/
def targets (lines : LineTable) : List Target :=
  lines.values.flatMap fun columns => columns.values.flatten

end LineTable

namespace OriginIndex

variable {σ : Type} [DecidableEq σ] [SourceKey σ]

/-- The index without sources. -/
def empty (order : List σ) : OriginIndex σ := ⟨order, .empty⟩

instance : Inhabited (OriginIndex σ) := ⟨empty []⟩

/-- The lines of a source. -/
def lines? (index : OriginIndex σ) (source : σ) : Option LineTable := index.sources.get? source

/-- Give a source the lines of a table. -/
def setLines (index : OriginIndex σ) (source : σ) (lines : LineTable) : OriginIndex σ :=
  { index with sources := index.sources.insert source lines }

/-- Make sure that a source is there; one that is keeps its lines. -/
def includeSource (index : OriginIndex σ) (source : σ) : OriginIndex σ :=
  match index.lines? source with
  | some _ => index
  | none => index.setLines source .empty

/-- Append targets at an origin. -/
def append (index : OriginIndex σ) (source : σ) (line column : Number)
    (targets : List Target) : OriginIndex σ :=
  index.setLines source (((index.lines? source).getD .empty).append line column targets)

/-- Append one target at an origin. -/
def add (index : OriginIndex σ) (source : σ) (line column : Number) (target : Target) :
    OriginIndex σ :=
  index.append source line column [target]

/-- The targets of an origin; none where nothing was added. -/
def targetsAt (index : OriginIndex σ) (source : σ) (line column : Number) : List Target :=
  ((index.lines? source).map fun lines => lines.targetsAt line column).getD []

/-- The sources in order. -/
def sourceNames (index : OriginIndex σ) : List σ := index.sources.keys

/-- All targets, in the order of their origins. -/
def targets (index : OriginIndex σ) : List Target := index.sources.values.flatMap LineTable.targets

/-- How many targets there are. -/
def count (index : OriginIndex σ) : Nat := index.targets.length

/-- The lines of one source: of the source asked for, or else of the only one. -/
def linesOf (index : OriginIndex σ) : Option σ → Except Fault LineTable
  | some source =>
    match index.lines? source with
    | some lines => .ok lines
    | none => .error (.invalidDocument (.missingSource (SourceKey.text source)))
  | none =>
    match index.sources.entries with
    | [(_, lines)] => .ok lines
    | _ => .error (.invalidDocument (.notSingleSource (index.sourceNames.map SourceKey.listed)))

end OriginIndex
end SourceMap

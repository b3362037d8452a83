import SourceMap.OriginIndex.Basic

/-!
# Placements

Before anything is written an index is walked once: sources, lines, columns and
targets in order. The walk checks every key and every target and yields what is to
be written, a list of placements. It stops at the first key that is no coordinate,
target that is not at coordinates or name that is not a string.

A key is checked before what it leads to, and of a target the line before the
column and the column before the name. A fault names the place it was met at by
the keys that lead there. A source has no check of its own: its number is its
place in the order of the index, and it is counted even if nothing stems from it.
-/

namespace SourceMap

/-- A target that is fit to be written, with its origin; the source is given by
its place in the index. -/
structure Placement where
  source : Nat
  originalLine : Nat
  originalColumn : Nat
  generatedLine : Nat
  generatedColumn : Nat
  name : Option String
deriving DecidableEq, Inhabited

namespace Placement

/-- The coordinate that a value is, or the fault of being none. A value that is
missing, that is no number, that is negative or fractional or that is beyond the
greatest coordinate all end in the same fault, which quotes the value. -/
def coordinate (place : Place) (value : Option Json) : Except Fault Nat :=
  match (value.bind Json.number?).bind Number.coordinate? with
  | some coordinate => .ok coordinate
  | none => .error (.ofNotCoordinate place value)

/-- The name that a value is, or the fault of not being a string; a name may be
missing. -/
def checkName (place : Place) : Option Json → Except Fault (Option String)
  | none => .ok none
  | some (.string name) => .ok (some name)
  | some _ => .error (.invalidPosition place .notString)

end Placement

namespace OriginIndex

variable {σ : Type} [DecidableEq σ] [SourceKey σ]

/-- Check the targets of one column. -/
def targetPlacements (source : σ × Nat) (line column : Number)
    (originalLine originalColumn : Nat) (targets : List Target) : Except Fault (List Placement) :=
  targets.zipIdx.mapM fun (target, number) => do
    let place := Place.target (SourceKey.text source.1) line column number
    let generatedLine ← Placement.coordinate (place .line) target.line
    let generatedColumn ← Placement.coordinate (place .column) target.column
    let name ← Placement.checkName (place .name) target.name
    return {
      source := source.2, originalLine, originalColumn, generatedLine, generatedColumn, name }

/-- Check the columns of one line. -/
def columnPlacements (source : σ × Nat) (line : Number) (originalLine : Nat)
    (columns : ColumnTable) : Except Fault (List Placement) :=
  columns.entries.flatMapM fun (column, targets) => do
    let originalColumn ←
      Placement.coordinate (.column (SourceKey.text source.1) line column) (some (.number column))
    targetPlacements source line column originalLine originalColumn targets

/-- Check the lines of one source. -/
def linePlacements (source : σ × Nat) (lines : LineTable) : Except Fault (List Placement) :=
  lines.entries.flatMapM fun (line, columns) => do
    let originalLine ←
      Placement.coordinate (.line (SourceKey.text source.1) line) (some (.number line))
    columnPlacements source line originalLine columns

/-- What is to be written for an index, in the order of its origins, or the
first fault. -/
def placements (index : OriginIndex σ) : Except Fault (List Placement) :=
  index.sources.entries.zipIdx.flatMapM fun ((source, lines), number) =>
    linePlacements (source, number) lines

/-- Check an index without writing it. -/
def check (index : OriginIndex σ) : Except Fault Unit := index.placements.map fun _ => ()

end OriginIndex
end SourceMap

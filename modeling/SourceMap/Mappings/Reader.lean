import SourceMap.OriginIndex.Basic
import SourceMap.Segment
import SourceMap.Text.Blank
import SourceMap.Vlq

/-!
# Reading mappings

A mappings text holds one group for each generated line, between semicolons; a
group that is not blank holds one segment, or several between commas. Every
segment adds its generated position to the index at the origin it resolves to. All
sources of the table are in the index, also those that no segment points to.

Blanks are skipped for whole groups only: inside a group that is not blank they
are no digits, and an empty segment between two commas is a fault. Reading stops
at the first fault and then has no index; what a session keeps of a text that is
cut short is in `Session.readText`. A segment whose source has no entry goes on
under the key that `SourceKey.missing` gives, or ends there.
-/

namespace SourceMap
namespace Mappings

/-- What reading carries from one segment to the next. -/
structure Progress (σ : Type := String) [DecidableEq σ] [SourceKey σ] where
  cursor : Cursor
  index : OriginIndex σ

variable {σ : Type} [DecidableEq σ] [SourceKey σ]

/-- Read one segment. -/
def readSegment (sources : List σ) (names : List String) (line segment : Nat)
    (progress : Progress σ) (token : List Char) : Except Fault (Progress σ) := do
  let location : Location :=
    { line := some (.ofNat line)
      segment := some (.ofNat segment)
      token := some (String.ofList token) }
  let offset ← (Vlq.readRun token).mapError fun defect => .malformedVlq defect (some location)
  let (resolved, cursor) ← progress.cursor.step offset sources names location
  let target := Target.placed (.ofNat line) resolved.generatedColumn resolved.name
  return {
    cursor
    index :=
      progress.index.add resolved.source resolved.originalLine resolved.originalColumn target }

/-- Read the segments of one generated line. -/
def readLine (sources : List σ) (names : List String) (line : Nat) (progress : Progress σ)
    (group : List Char) : Except Fault (Progress σ) :=
  let progress := { progress with cursor := progress.cursor.newLine }
  if Blank.isBlankText group then .ok progress
  else
    (group.splitOn ',').zipIdx.foldlM
      (fun progress (token, segment) => readSegment sources names line segment progress token)
      progress

/-- The index that a mappings text describes under its tables of sources and
names. -/
def read (mappings : String) (sources : List σ) (names : List String) :
    Except Fault (OriginIndex σ) := do
  let started : Progress σ :=
    { cursor := .start
      index := sources.foldl OriginIndex.includeSource (.empty sources) }
  let finished ← (mappings.toList.splitOn ';').zipIdx.foldlM
    (fun progress (group, line) => readLine sources names line progress group) started
  return finished.index

end Mappings
end SourceMap

import SourceMap.OriginIndex.Basic

/-!
# Redirecting an index

One index leads from the original sources to an intermediate file, and the lines
of a second one lead from that file onward. Redirecting keeps every origin of the
first and replaces each of its targets by all targets that the second has at the
same line and column; a target without any is dropped, which can leave an origin
without targets. Names come from the second.

The redirected index is built anew, origin by origin, and on the way it is counted
how many targets are kept and how many are dropped.
-/

namespace SourceMap

/-- How many targets are in a redirected index so far, and how many led nowhere. -/
structure Tally where
  kept : Nat := 0
  dropped : Nat := 0

/-- A redirected index, how many targets it holds and how many were dropped. -/
structure Redirected (σ : Type := String) [DecidableEq σ] [SourceKey σ] where
  index : OriginIndex σ
  kept : Nat
  dropped : Nat

namespace LineTable

/-- Where a target leads in the lines of the file it stands in. -/
def onward (lines : LineTable) (target : Target) : List Target :=
  match target.lineNumber?, target.columnNumber? with
  | some line, some column => lines.targetsAt line column
  | _, _ => []

/-- Redirect the targets of one column, one after the other: those that a target
leads to follow those that the earlier ones led to. -/
def redirectTargets (second : LineTable) (targets : List Target) (tally : Tally) :
    List Target × Tally :=
  let (merged, dropped) := targets.foldl (fun reached target =>
    let onward := second.onward target
    (reached.1 ++ onward, if onward.isEmpty then reached.2 + 1 else reached.2)) ([], tally.dropped)
  (merged, ⟨tally.kept + merged.length, dropped⟩)

/-- Redirect the targets of one source, column by column and line by line. -/
def redirectCounted (lines second : LineTable) (tally : Tally) : LineTable × Tally :=
  lines.rebuildWith (fun columns => columns.rebuildWith second.redirectTargets) tally

end LineTable

namespace OriginIndex

variable {σ : Type} [DecidableEq σ] [SourceKey σ]

/-- Redirect an index and count what it keeps and what it drops. -/
def redirectCounted (index : OriginIndex σ) (second : LineTable) : Redirected σ :=
  let (sources, tally) := index.sources.rebuildWith (·.redirectCounted second) {}
  ⟨⟨index.order, sources⟩, tally.kept, tally.dropped⟩

/-- Redirect an index without counting. -/
def redirect (index : OriginIndex σ) (second : LineTable) : OriginIndex σ :=
  (index.redirectCounted second).index

/-- Redirect an index through one source of another. -/
def redirectThrough (first second : OriginIndex σ) (intermediate : Option σ) :
    Except Fault (OriginIndex σ) :=
  (second.linesOf intermediate).map first.redirect

end OriginIndex
end SourceMap

import SourceMap.OriginIndex.Redirect
import SourceMap.Proofs.OrderedMap.Lookup

/-!
# What redirecting counts

Redirecting goes through an index once and does two things on the way: it rebuilds
every table, and it counts. Neither depends on the other. So a redirected index is
known without the counts, table by table, and the counts are known without the
tables: what was kept is what all targets lead to, and what was dropped are the
targets that lead nowhere, each as often as it is there.

The two counters are threaded through three levels of tables and through the
targets of each column. At every level the step is the same one,
`OrderedMap.rebuildWith_eq`: the value that a change makes does not look at the
counters, and the counters move on by what the change was given. None of this
needs any order of the keys. Rebuilding may place incomparable keys anew, but it
comes to every entry of the old table just once.
-/

namespace SourceMap

/-- The counts after some targets more have been redirected. -/
def Tally.after (second : LineTable) (tally : Tally) (targets : List Target) : Tally where
  kept := tally.kept + (targets.flatMap second.onward).length
  dropped := tally.dropped + (targets.filter fun target => (second.onward target).isEmpty).length

namespace Tally

variable (second : LineTable)

/-- Without targets nothing is counted. -/
@[simp] theorem after_nil (tally : Tally) : tally.after second [] = tally := rfl

/-- Targets are counted in parts. -/
theorem after_append (tally : Tally) (targets more : List Target) :
    tally.after second (targets ++ more) = (tally.after second targets).after second more := by
  simp [after, Nat.add_assoc]

/-- Counting list by list is counting the targets of all lists. -/
theorem foldl_after (lists : List (List Target)) (tally : Tally) :
    lists.foldl (after second) tally = tally.after second lists.flatten := by
  induction lists generalizing tally with
  | nil => rfl
  | cons targets rest inductionHypothesis =>
    rw [List.foldl_cons, inductionHypothesis, List.flatten_cons, after_append]

end Tally

namespace LineTable

variable (second : LineTable)

/-- The targets of a column are replaced by what they lead to, and counted.

Proof: by induction on the targets, for any list reached and any number dropped
so far. A target that leads nowhere adds nothing to the list and one to the
number; any other adds what it leads to. What is kept is added once for the
whole column. -/
theorem redirectTargets_eq (targets : List Target) (tally : Tally) :
    second.redirectTargets targets tally =
      (targets.flatMap second.onward, tally.after second targets) := by
  have walk (targets merged : List Target) (dropped : Nat) :
      targets.foldl (fun reached target =>
          let onward := second.onward target
          (reached.1 ++ onward, if onward.isEmpty then reached.2 + 1 else reached.2))
          (merged, dropped) =
        (merged ++ targets.flatMap second.onward,
          dropped + (targets.filter fun target => (second.onward target).isEmpty).length) := by
    induction targets generalizing merged dropped with
    | nil => simp
    | cons target rest inductionHypothesis =>
      rw [List.foldl_cons, inductionHypothesis, List.flatMap_cons, List.append_assoc]
      by_cases lost : second.onward target = []
      · simp [lost, Nat.add_assoc, Nat.add_comm 1]
      · simp [lost]
  simp only [redirectTargets, walk, List.nil_append, Tally.after]

/-- The table with the targets of every column redirected. -/
def redirect (lines second : LineTable) : LineTable :=
  lines.rebuild fun columns => columns.rebuild fun targets => targets.flatMap second.onward

/-- The lines of a source are redirected column by column, and all of their
targets are counted. -/
theorem redirectCounted_eq (lines : LineTable) (tally : Tally) :
    lines.redirectCounted second tally =
      (lines.redirect second, tally.after second lines.targets) := by
  have ofColumns (columns : ColumnTable) (tally : Tally) :
      columns.rebuildWith second.redirectTargets tally =
        (columns.rebuild fun targets => targets.flatMap second.onward,
          tally.after second columns.values.flatten) := by
    rw [OrderedMap.rebuildWith_eq second.redirectTargets_eq, Tally.foldl_after]
  rw [redirectCounted, OrderedMap.rebuildWith_eq ofColumns, redirect, targets,
    List.flatMap_def, ← Tally.foldl_after, List.foldl_map]

end LineTable

namespace OriginIndex

variable {σ : Type} [DecidableEq σ] [SourceKey σ]

/-- A redirected index has the tables of its sources redirected. What is kept
are the targets that all of its targets lead to, and what is dropped are the
targets that lead nowhere. -/
theorem redirectCounted_eq (index : OriginIndex σ) (second : LineTable) :
    index.redirectCounted second =
      ⟨⟨index.order, index.sources.rebuild fun lines => lines.redirect second⟩,
        (index.targets.flatMap second.onward).length,
        (index.targets.filter fun target => (second.onward target).isEmpty).length⟩ := by
  have counted : index.sources.values.foldl
      (fun tally lines => tally.after second lines.targets) {} =
        Tally.after second {} index.targets := by
    rw [targets, List.flatMap_def, ← Tally.foldl_after, List.foldl_map]
  rw [redirectCounted, OrderedMap.rebuildWith_eq (LineTable.redirectCounted_eq second), counted]
  simp [Tally.after]

/-- The tables of a redirected index are redirected, without regard to the
counts. -/
theorem redirect_eq (index : OriginIndex σ) (second : LineTable) :
    index.redirect second =
      ⟨index.order, index.sources.rebuild fun lines => lines.redirect second⟩ := by
  rw [redirect, redirectCounted_eq]

end OriginIndex
end SourceMap

import SourceMap.Proofs.OriginIndex.Outline

/-!
# Redirecting in two steps

Three maps, one after the other: an index, the lines of the file it leads to, and
those of the file that these lead to. Redirecting the index through both tables in
turn comes to the same as redirecting it once through the first table, redirected
through the second. The two ways look targets up in different tables, but a
look-up in a redirected table is a look-up in two steps.

The indexes are equal and not only alike at every origin, because rebuilding a
table in ascending order repeats its keys; that is where undefined keys in the
first index are excluded. The tables in the middle and at the end may have any
keys. How many targets are dropped is not compared: the two ways drop different
ones, at different steps.
-/

namespace SourceMap

namespace OrderedMap

variable {κ α β γ : Type} {compare : κ → κ → Option Ordering} [DecidableEq κ]

/-- Rebuilding a map only looks at its values. -/
theorem rebuild_congr {change other : α → β} {map : OrderedMap compare α}
    (same : ∀ value ∈ map.values, change value = other value) :
    map.rebuild change = map.rebuild other := by
  apply List.foldl_ext
  intro built entry member
  rw [same entry.2 (List.mem_map_of_mem member)]

/-- Rebuilding a map in ascending order twice changes its values twice. -/
theorem rebuild_rebuild (change : α → β) (further : β → γ) {map : OrderedMap compare α}
    (ascending : Ascending compare map.entries) :
    (map.rebuild change).rebuild further = map.rebuild fun value => further (change value) := by
  have once := entries_rebuild change ascending
  have ascendingOnce : Ascending compare (map.rebuild change).entries := by
    rw [once, Ascending, List.pairwise_map]
    exact ascending
  apply ext
  rw [entries_rebuild further ascendingOnce, once, List.map_map, entries_rebuild _ ascending]
  rfl

end OrderedMap

namespace LineTable

/-- In a redirected table a target leads where it leads in the table and then
further. No order of keys is needed here, since a look-up in a rebuilt table
does not depend on one. -/
theorem onward_redirect (lines third : LineTable) (target : Target) :
    (lines.redirect third).onward target = (lines.onward target).flatMap third.onward := by
  cases atLine : target.lineNumber? with
  | none => simp [onward, atLine]
  | some line =>
    cases atColumn : target.columnNumber? with
    | none => simp [onward, atLine, atColumn]
    | some column =>
      simp only [onward, atLine, atColumn, targetsAt_eq, stored?_redirect]
      cases lines.stored? line column <;> rfl

/-- Redirecting a table through two others in turn. -/
theorem Sound.redirect_redirect {lines : LineTable} (sound : lines.Sound)
    (defined : lines.Defined) (second third : LineTable) :
    (lines.redirect second).redirect third = lines.redirect (second.redirect third) := by
  refine (OrderedMap.rebuild_rebuild _ _ (sound.ascending defined.lineKeys)).trans ?_
  apply OrderedMap.rebuild_congr
  intro columns member
  have columnsSound : ColumnTable.Sound columns := (sound.values columns member).1
  have ascending := columnsSound.ascending (defined.columnKeys columns member)
  refine (OrderedMap.rebuild_rebuild _ _ ascending).trans ?_
  apply OrderedMap.rebuild_congr
  intro targets _
  rw [List.flatMap_assoc]
  exact List.flatMap_congr fun target _ => (second.onward_redirect third target).symm

end LineTable

namespace OriginIndex

/-- Redirecting an index through two tables in turn. -/
theorem Sound.redirect_redirect {index : OriginIndex} (sound : index.Sound)
    (defined : index.Defined) (second third : LineTable) :
    (index.redirect second).redirect third = index.redirect (second.redirect third) := by
  rw [redirect_eq, redirect_eq, redirect_eq]
  refine congrArg (OriginIndex.mk index.order) ?_
  refine (OrderedMap.rebuild_rebuild _ _ sound.ascending_sources).trans ?_
  apply OrderedMap.rebuild_congr
  intro lines member
  exact (sound.values lines member).redirect_redirect (defined lines member) second third

/-- Redirecting is associative. An index without undefined keys, a file of a
second index and a third table: redirecting the first index through the lines of
the file and then through the third table gives the same index as redirecting it
through the lines that the file has after the second index was redirected. Both
ways keep as many targets in their last step.

The file is listed in the second index, and then it is listed in the redirected
one as well, with redirected lines. The equality of the indexes is that of
`Sound.redirect_redirect`, and what is kept in a last step is counted in the
index that it leaves. -/
theorem redirect_assoc {first second : OriginIndex} (firstBuilt : first.Built)
    (firstDefined : first.Defined) (third : LineTable) {file : String}
    (listed : file ∈ second.sourceNames) :
    ∃ lines onward, second.linesOf (some file) = .ok lines ∧
      (second.redirect third).linesOf (some file) = .ok onward ∧
      ((first.redirectCounted lines).index.redirectCounted third).index =
        (first.redirectCounted onward).index ∧
      ((first.redirectCounted lines).index.redirectCounted third).kept =
        (first.redirectCounted onward).kept := by
  obtain ⟨lines, found⟩ :=
    Option.isSome_iff_exists.mp ((second.mem_sourceNames_iff file).mp listed)
  have foundOnward : (second.redirect third).lines? file = some (lines.redirect third) := by
    rw [lines?_redirect, found, Option.map_some]
  have same : (first.redirect lines).redirect third = first.redirect (lines.redirect third) :=
    firstBuilt.sound.redirect_redirect firstDefined lines third
  refine ⟨lines, lines.redirect third, ?_, ?_, same, ?_⟩
  · rw [linesOf, found]
  · rw [linesOf, foundOnward]
  · rw [kept_redirectCounted, kept_redirectCounted]
    exact congrArg count same

/-- An index of one file, with a point that leads to two others. -/
def passedIndex : OriginIndex :=
  ((OriginIndex.empty ["mid.js"]).append "mid.js" 0 5
    [.placed 2 2 (some "n"), .placed 4 4 none]).append "mid.js" 7 7 [.placed 1 1 none]

/-- One target goes on to two others by way of the file in the middle; the rest
are dropped. -/
theorem redirect_assoc_forkedIndex :
    let third := LineTable.append .empty 2 2 [.placed 6 0 none, .placed 6 1 (some "t")]
    ∃ lines onward, passedIndex.linesOf (some "mid.js") = .ok lines ∧
      (passedIndex.redirect third).linesOf (some "mid.js") = .ok onward ∧
      (forkedIndex.redirect lines).redirect third = forkedIndex.redirect onward ∧
      (forkedIndex.redirect onward).targetsAt "a.ts" 3 1 =
        [.placed 6 0 none, .placed 6 1 (some "t")] := by
  intro third
  have firstBuilt : forkedIndex.Built :=
    .includeSource _ (.append _ _ _ _ (.append _ _ _ _ (.empty _)))
  obtain ⟨lines, onward, found, foundOnward, same, _⟩ := redirect_assoc firstBuilt
    (by decide +kernel) third (show "mid.js" ∈ passedIndex.sourceNames by decide +kernel)
  refine ⟨lines, onward, found, foundOnward, same, ?_⟩
  have isOnward : (passedIndex.redirect third).linesOf (some "mid.js") = .ok
      ((LineTable.append .empty 0 5 [.placed 6 0 none, .placed 6 1 (some "t")]).append 7 7 []) := by
    cbv
  obtain rfl := Except.ok.inj (foundOnward.symm.trans isOnward)
  cbv

end OriginIndex
end SourceMap

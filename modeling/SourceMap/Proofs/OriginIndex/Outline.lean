import SourceMap.Proofs.OriginIndex.Built
import SourceMap.Proofs.OriginIndex.Redirecting

/-!
# The outline of a redirected index

The outline of an index is what it lists without the targets: its sources, for
each source its lines, and for each line its columns, in their order. Redirecting
keeps it, also at origins that lose all of their targets, as long as no key is
undefined. What is found at an origin is what the second table holds at the
targets of the first index. And the redirected index goes on in the order of the
first one: a source that is added later has its place there.

An undefined key is the one thing that rebuilding may move. The three levels are
rebuilt by the same insertions, so the outline is kept at each of them for the
same reason: inserting keys in ascending order puts each at the end.
-/

namespace SourceMap

/-- The lines of a table with their columns, in order. -/
def LineTable.outline (lines : LineTable) : List (Number × List Number) :=
  lines.entries.map fun entry => (entry.1, OrderedMap.keys entry.2)

/-- Whether no key of a table of lines or of one of its tables of columns is
undefined. -/
@[mk_iff] structure LineTable.Defined (lines : LineTable) : Prop where
  lineKeys : ∀ line ∈ lines.keys, line ≠ .nan
  columnKeys : ∀ columns ∈ lines.values, ∀ column ∈ OrderedMap.keys columns, column ≠ .nan

instance (lines : LineTable) : Decidable lines.Defined :=
  decidable_of_iff _ (LineTable.defined_iff lines).symm

/-- Redirecting a sound table without undefined keys keeps its lines and their
columns in their places. -/
theorem LineTable.Sound.outline_redirect {lines : LineTable} (sound : lines.Sound)
    (defined : lines.Defined) (second : LineTable) :
    (lines.redirect second).outline = lines.outline := by
  have ascendingLines := sound.ascending defined.lineKeys
  rw [LineTable.outline, LineTable.redirect, OrderedMap.entries_rebuild _ ascendingLines,
    List.map_map, LineTable.outline]
  apply List.map_congr_left
  intro entry member
  have listed : entry.2 ∈ lines.values := List.mem_map_of_mem member
  have columnsSound : ColumnTable.Sound entry.2 := (sound.values entry.2 listed).1
  have ascending := columnsSound.ascending (defined.columnKeys entry.2 listed)
  simp [OrderedMap.keys, OrderedMap.entries_rebuild _ ascending]

namespace OriginIndex

section

variable {σ : Type} [DecidableEq σ] [SourceKey σ]

/-- The sources of an index with their lines and their columns, in order. -/
def outline (index : OriginIndex σ) : List (σ × List (Number × List Number)) :=
  index.sources.entries.map fun entry => (entry.1, entry.2.outline)

/-- Whether no line and no column of an index is undefined. -/
def Defined (index : OriginIndex σ) : Prop := ∀ lines ∈ index.sources.values, lines.Defined

instance (index : OriginIndex σ) : Decidable index.Defined :=
  inferInstanceAs (Decidable (∀ lines ∈ index.sources.values, lines.Defined))

end

/-- Redirecting a sound index without undefined keys keeps its outline. -/
theorem Sound.outline_redirect {index : OriginIndex} (sound : index.Sound)
    (defined : index.Defined) (second : LineTable) :
    (index.redirect second).outline = index.outline := by
  rw [outline, sound.entries_redirect, List.map_map, outline]
  apply List.map_congr_left
  intro entry member
  have listed : entry.2 ∈ index.sources.values := List.mem_map_of_mem member
  have same := (sound.values entry.2 listed).outline_redirect (defined entry.2 listed) second
  simp [same]

/-- A new source goes between the sources that come before it and those that
come after it. The two parts depend on the source alone and not on its lines. -/
theorem Sound.sourceNames_setLines {index : OriginIndex} (sound : index.Sound) {added : String}
    (absent : added ∉ index.sourceNames) :
    ∃ before after, index.sourceNames = before ++ after ∧
      (∀ source ∈ before, compareSources index.order source added = some .lt) ∧
      (∀ source ∈ after, compareSources index.order added source = some .lt) ∧
      ∀ lines, (index.setLines added lines).sourceNames = before ++ added :: after := by
  obtain ⟨before, after, split, lower, upper⟩ := OrderedMap.ascending_cut
    (compareSources_strictOrder index.order) sound.ascending_sources absent trivial
    fun _ _ => trivial
  refine ⟨before.map Prod.fst, after.map Prod.fst, ?_, ?_, ?_, fun lines => ?_⟩
  · rw [sourceNames, OrderedMap.keys, split, List.map_append]
  · intro source member
    obtain ⟨entry, listed, rfl⟩ := List.mem_map.mp member
    exact lower entry listed
  · intro source member
    obtain ⟨entry, listed, rfl⟩ := List.mem_map.mp member
    exact (upper entry listed).2
  · have inserted := OrderedMap.entries_insert_between lines absent split lower
      fun entry member => (upper entry member).1
    rw [sourceNames, OriginIndex.setLines, OrderedMap.keys, inserted, List.map_append,
      List.map_cons]

/-- Redirecting an index that was built, without undefined keys, through any
second table. The redirected index has exactly the sources of the first one, for
each source exactly its lines and for each line exactly its columns, in their
order. At every origin it holds, for the targets of the first one in their
order, all that the second table holds at the line and the column of each. A
source that is added later goes where the comparison of the first index puts it.

A target whose line or column is no number leads nowhere. The second table may
have any keys, and that those of the first index are defined is used for the
first part only. -/
theorem redirect_pointwise {first : OriginIndex} (built : first.Built) (defined : first.Defined)
    (second : LineTable) :
    (first.redirect second).outline = first.outline ∧
      (∀ source line column, (first.redirect second).targetsAt source line column =
        (first.targetsAt source line column).flatMap fun target =>
          match target.lineNumber?, target.columnNumber? with
          | some onwardLine, some onwardColumn => second.targetsAt onwardLine onwardColumn
          | _, _ => []) ∧
      ∀ added, added ∉ first.sourceNames →
        ∃ before after, first.sourceNames = before ++ after ∧
          (∀ source ∈ before, compareSources first.order source added = some .lt) ∧
          (∀ source ∈ after, compareSources first.order added source = some .lt) ∧
          ∀ lines, ((first.redirect second).setLines added lines).sourceNames =
            before ++ added :: after := by
  have sound := built.sound
  have sources := sound.sourceNames_redirect second
  refine ⟨sound.outline_redirect defined second, first.targetsAt_redirect second, ?_⟩
  intro added absent
  rw [← sources] at absent ⊢
  exact (sound.redirect second).sourceNames_setLines absent

/-- Two origins in one source, and another source without lines. -/
def forkedIndex : OriginIndex :=
  (((OriginIndex.empty ["c.ts", "a.ts"]).append "a.ts" 3 1
    [.placed 0 5 (some "old"), .placed 9 9 none]).append "a.ts" 3 0
      [.placed 7 7 none]).includeSource "c.ts"

/-- One of the targets leads to two others, the rest lead nowhere; and a third
source goes to the end. -/
theorem redirect_pointwise_forkedIndex :
    let second := LineTable.append .empty 0 5 [.placed 2 2 (some "new"), .placed 4 4 none]
    (forkedIndex.redirect second).outline = [("c.ts", []), ("a.ts", [(3, [0, 1])])] ∧
      (forkedIndex.redirect second).targetsAt "a.ts" 3 1 =
        [.placed 2 2 (some "new"), .placed 4 4 none] ∧
      (forkedIndex.redirect second).targetsAt "a.ts" 3 0 = [] ∧
      ((forkedIndex.redirect second).setLines "b.ts" .empty).sourceNames =
        ["c.ts", "a.ts", "b.ts"] := by
  intro second
  have built : forkedIndex.Built :=
    .includeSource _ (.append _ _ _ _ (.append _ _ _ _ (.empty _)))
  obtain ⟨outline, targets, places⟩ := redirect_pointwise built (by decide +kernel) second
  obtain ⟨before, after, split, _, upper, inserted⟩ := places "b.ts" (by decide +kernel)
  have sources : forkedIndex.sourceNames = ["c.ts", "a.ts"] := by cbv
  rw [sources] at split
  have nothing : after = [] := by
    refine List.eq_nil_iff_forall_not_mem.mpr fun source member => ?_
    have listed : source ∈ ["c.ts", "a.ts"] := split ▸ List.mem_append_right before member
    have later := upper source member
    simp only [List.mem_cons, List.not_mem_nil, or_false] at listed
    rcases listed with rfl | rfl <;> revert later <;> decide +kernel
  obtain rfl : before = ["c.ts", "a.ts"] := by simpa [nothing] using split.symm
  refine ⟨outline.trans (by cbv), ?_, ?_, (inserted _).trans (by rw [nothing]; rfl)⟩
  · rw [targets]
    cbv
  · rw [targets]
    cbv

end OriginIndex
end SourceMap

import SourceMap.OriginIndex.Record
import SourceMap.Proofs.Number.Order
import SourceMap.Proofs.OriginIndex.Lookup
import SourceMap.Proofs.OriginIndex.SourceOrder

/-!
# The invariant of indexes

A sound index has no key twice at any of its three levels and lists the keys of
every level in ascending order; only a table in which an undefined number is a key
may list its keys in another order. No line is without columns. Every operation on
indexes keeps this.

That no key occurs twice is part of what an ordered map is, so it does not come up
below. What does is the order, level by level, and the condition on lines, which
is what lets a table be told from another one by what is stored in it. Soundness
is stated for any predicate on sources: for plain names it is that of all sources,
and for optional names that of the sources with a name.
-/

namespace SourceMap

/-- A table of columns whose keys are distinct and, where they are defined,
ascending. -/
def ColumnTable.Sound (columns : ColumnTable) : Prop :=
  OrderedMap.Sound (· ≠ .nan) (fun _ => True) columns

namespace LineTable

/-- A table of lines whose keys are distinct and, where they are defined,
ascending; each of its lines has a column, and its columns are sound. -/
def Sound (lines : LineTable) : Prop :=
  OrderedMap.Sound (· ≠ .nan)
    (fun columns => ColumnTable.Sound columns ∧ columns.entries ≠ []) lines

/-- The table without lines is sound. -/
theorem sound_empty : Sound OrderedMap.empty := OrderedMap.Sound.empty

/-- An insertion leaves no map without entries. -/
theorem entries_insert_ne_nil (columns : ColumnTable) (column : Number) (targets : List Target) :
    (columns.insert column targets).entries ≠ [] := by
  intro nothing
  have member : column ∈ (columns.insert column targets).keys :=
    (OrderedMap.mem_keys_insert columns column targets column).mpr (Or.inl rfl)
  simp [OrderedMap.keys, nothing] at member

/-- Appending keeps a table of lines sound. -/
theorem Sound.append {lines : LineTable} (sound : lines.Sound) (line column : Number)
    (targets : List Target) : (lines.append line column targets).Sound := by
  apply OrderedMap.Sound.insert Number.strictOrder sound line
  refine ⟨?_, entries_insert_ne_nil _ column _⟩
  refine OrderedMap.Sound.insert Number.strictOrder ?_ column trivial
  cases found : lines.get? line with
  | none => exact OrderedMap.Sound.empty
  | some columns => exact (OrderedMap.Sound.get? sound found).1

/-- Redirecting keeps a table of lines sound. -/
theorem Sound.redirect {lines : LineTable} (sound : lines.Sound) (second : LineTable) :
    (lines.redirect second).Sound := by
  apply OrderedMap.Sound.rebuild Number.strictOrder
  intro columns member
  obtain ⟨columnsSound, inhabited⟩ := sound.values columns member
  refine ⟨OrderedMap.Sound.rebuild Number.strictOrder (fun _ _ => trivial), ?_⟩
  intro nothing
  obtain ⟨entry, listed⟩ := List.exists_mem_of_ne_nil columns.entries inhabited
  have value := OrderedMap.get?_rebuild (fun targets => targets.flatMap second.onward) columns
    entry.1
  rw [OrderedMap.get?_of_mem_entries listed] at value
  simp [OrderedMap.get?_eq_lookup, nothing] at value

/-- The lines that a record describes are sound. -/
theorem sound_ofRecord (record : LineRecord) : (ofRecord record).Sound := by
  unfold ofRecord
  refine List.foldlRecOn (Fields.arrange record) _ sound_empty ?_
  rintro lines sound ⟨line, columns⟩ _
  refine List.foldlRecOn (Fields.arrange columns) _ sound ?_
  rintro table tableSound ⟨column, targets⟩ _
  exact tableSound.append _ _ _

end LineTable

namespace OriginIndex

section SoundFor

variable {σ : Type} [DecidableEq σ] [SourceKey σ] {valid : σ → Prop} {index : OriginIndex σ}

/-- An index whose sources are distinct and, where all of them are valid,
ascending, and whose tables of lines are sound. As in an ordered map, the
validity of the sources is a premise of their order; so an operation that brings
in another source keeps an index sound. -/
def SoundFor (valid : σ → Prop) (index : OriginIndex σ) : Prop :=
  OrderedMap.Sound valid LineTable.Sound index.sources

/-- The index without sources is sound. -/
theorem soundFor_empty (order : List σ) : (empty order).SoundFor valid := OrderedMap.Sound.empty

variable (strict : ∀ order : List σ, OrderedMap.StrictOrder (compareSources order) valid)

include strict

/-- Setting the lines of a source to sound ones keeps an index sound. -/
theorem SoundFor.setLines (sound : index.SoundFor valid) (source : σ) {lines : LineTable}
    (linesSound : lines.Sound) : (index.setLines source lines).SoundFor valid :=
  OrderedMap.Sound.insert (strict index.order) sound source linesSound

/-- Making sure of a source keeps an index sound. -/
theorem SoundFor.includeSource (sound : index.SoundFor valid) (source : σ) :
    (index.includeSource source).SoundFor valid := by
  unfold OriginIndex.includeSource
  cases found : index.lines? source with
  | some lines => exact sound
  | none => exact sound.setLines strict source LineTable.sound_empty

/-- Appending keeps an index sound. -/
theorem SoundFor.append (sound : index.SoundFor valid) (source : σ) (line column : Number)
    (targets : List Target) : (index.append source line column targets).SoundFor valid := by
  refine sound.setLines strict source (LineTable.Sound.append ?_ line column targets)
  cases found : index.lines? source with
  | none => exact LineTable.sound_empty
  | some lines => exact OrderedMap.Sound.get? sound found

/-- Redirecting keeps an index sound. -/
theorem SoundFor.redirect (sound : index.SoundFor valid) (second : LineTable) :
    (index.redirect second).SoundFor valid := by
  rw [redirect_eq]
  apply OrderedMap.Sound.rebuild (strict index.order)
  intro lines member
  exact (sound.values lines member).redirect second

/-- The index that a record describes is sound. -/
theorem soundFor_ofRecord (record : OriginRecord) (order : Option (List σ)) :
    (ofRecord record order).SoundFor valid := by
  unfold ofRecord
  refine List.foldlRecOn (Fields.arrange record) _ (soundFor_empty _) ?_
  rintro index sound ⟨source, lines⟩ _
  exact sound.setLines strict _ (LineTable.sound_ofRecord lines)

end SoundFor

/-- An index whose sources are distinct and ascending and whose tables of lines
are sound. -/
def Sound (index : OriginIndex) : Prop := index.SoundFor fun _ => True

/-- The index without sources is sound. -/
theorem sound_empty (order : List String) : (empty order).Sound := soundFor_empty order

/-- The lines of a source of a sound index are sound. -/
theorem Sound.lines {index : OriginIndex} (sound : index.Sound) {source : String}
    {lines : LineTable} (found : index.lines? source = some lines) : lines.Sound :=
  OrderedMap.Sound.get? sound found

/-- Setting the lines of a source to sound ones keeps an index sound. -/
theorem Sound.setLines {index : OriginIndex} (sound : index.Sound) (source : String)
    {lines : LineTable} (linesSound : lines.Sound) : (index.setLines source lines).Sound :=
  SoundFor.setLines compareSources_strictOrder sound source linesSound

/-- Making sure of a source keeps an index sound. -/
theorem Sound.includeSource {index : OriginIndex} (sound : index.Sound) (source : String) :
    (index.includeSource source).Sound :=
  SoundFor.includeSource compareSources_strictOrder sound source

/-- Appending keeps an index sound. -/
theorem Sound.append {index : OriginIndex} (sound : index.Sound) (source : String)
    (line column : Number) (targets : List Target) :
    (index.append source line column targets).Sound :=
  SoundFor.append compareSources_strictOrder sound source line column targets

/-- Redirecting keeps an index sound. -/
theorem Sound.redirect {index : OriginIndex} (sound : index.Sound) (second : LineTable) :
    (index.redirect second).Sound :=
  SoundFor.redirect compareSources_strictOrder sound second

/-- The index that a record describes is sound. -/
theorem sound_ofRecord (record : OriginRecord) (order : Option (List String)) :
    (ofRecord record order).Sound := soundFor_ofRecord compareSources_strictOrder record order

/-- The sources of an index are distinct. -/
theorem nodup_sourceNames (index : OriginIndex) : index.sourceNames.Nodup := index.sources.distinct

/-- The entries of a sound index ascend. -/
theorem Sound.ascending_sources {index : OriginIndex} (sound : index.Sound) :
    OrderedMap.Ascending (compareSources index.order) index.sources.entries :=
  sound.ascending fun _ _ => trivial

/-- Redirecting a sound index keeps its sources in their places. -/
theorem Sound.entries_redirect {index : OriginIndex} (sound : index.Sound) (second : LineTable) :
    (index.redirect second).sources.entries =
      index.sources.entries.map fun entry => (entry.1, entry.2.redirect second) := by
  rw [redirect_eq]
  exact OrderedMap.entries_rebuild _ sound.ascending_sources

end OriginIndex

/-- Redirecting a table of lines redirects the list stored at each place. -/
theorem LineTable.stored?_redirect (lines second : LineTable) (line column : Number) :
    (lines.redirect second).stored? line column =
      (lines.stored? line column).map fun targets => targets.flatMap second.onward := by
  rw [stored?, LineTable.redirect, OrderedMap.get?_rebuild, stored?]
  cases lines.get? line with
  | none => rfl
  | some columns => exact OrderedMap.get?_rebuild _ columns column

/-- The lines of a source of a redirected index are those of the index,
redirected. -/
theorem OriginIndex.lines?_redirect (index : OriginIndex) (second : LineTable) (source : String) :
    (index.redirect second).lines? source =
      (index.lines? source).map fun lines => lines.redirect second := by
  rw [redirect_eq]
  exact OrderedMap.get?_rebuild _ index.sources source

/-- Redirecting an index redirects the list stored at each origin. -/
theorem OriginIndex.stored?_redirect (index : OriginIndex) (second : LineTable) (source : String)
    (line column : Number) :
    (index.redirect second).stored? source line column =
      (index.stored? source line column).map fun targets => targets.flatMap second.onward := by
  rw [stored?, lines?_redirect, stored?]
  cases index.lines? source with
  | none => rfl
  | some lines => exact lines.stored?_redirect second line column

end SourceMap

import SourceMap.Proofs.OriginIndex.Adding

/-!
# Regular indexes

Among names every comparison by a list is a strict order, so an index of names can
always be kept in order. A key of a missing source is level with every other key
outside of the list, and an index that has one may be in no order at all. A
regular index has none: its tables are sound and all of its sources have names.

Every operation on indexes keeps this, as long as it is given sources with names.
So an index that is made of mappings is regular if its table has names only and
all mappings stem from sources of the table, and the index that a record describes
is regular in any case.
-/

namespace SourceMap.OriginIndex

variable {σ : Type} [DecidableEq σ] [SourceKey σ] {index : OriginIndex σ}

/-- An index whose tables are sound and all of whose sources have names. Its
list of sources is in ascending order; soundness alone says so only of an index
whose sources all have names. -/
structure Regular (index : OriginIndex σ) : Prop where
  sound : index.SoundFor SourceKey.Named
  named : ∀ source ∈ index.sourceNames, SourceKey.Named source

/-- The index without sources is regular. -/
theorem regular_empty (order : List σ) : (empty order).Regular :=
  ⟨soundFor_empty order, fun _ member => nomatch member⟩

/-- An index that stays sound and gets no other source than one with a name
stays regular. -/
theorem Regular.of_sources (regular : index.Regular) {next : OriginIndex σ}
    (sound : next.SoundFor SourceKey.Named) {source : σ} (named : SourceKey.Named source)
    (sources : ∀ other ∈ next.sourceNames, other = source ∨ other ∈ index.sourceNames) :
    next.Regular := by
  refine ⟨sound, fun other member => ?_⟩
  rcases sources other member with rfl | listed
  · exact named
  · exact regular.named other listed

variable [LawfulSourceKey σ]

/-- Setting the lines of a source with a name to sound ones keeps an index
regular. -/
theorem Regular.setLines (regular : index.Regular) {source : σ} (named : SourceKey.Named source)
    {lines : LineTable} (linesSound : lines.Sound) : (index.setLines source lines).Regular :=
  regular.of_sources (regular.sound.setLines compareSources_strictOrder_named source linesSound)
    named fun other => (OrderedMap.mem_keys_insert index.sources source lines other).mp

/-- Making sure of a source with a name keeps an index regular. -/
theorem Regular.includeSource (regular : index.Regular) {source : σ}
    (named : SourceKey.Named source) : (index.includeSource source).Regular := by
  unfold OriginIndex.includeSource
  cases index.lines? source with
  | some lines => exact regular
  | none => exact regular.setLines named LineTable.sound_empty

/-- Appending at a source with a name keeps an index regular. -/
theorem Regular.append (regular : index.Regular) {source : σ} (named : SourceKey.Named source)
    (line column : Number) (targets : List Target) :
    (index.append source line column targets).Regular :=
  regular.of_sources
    (regular.sound.append compareSources_strictOrder_named source line column targets) named
    fun other => (OrderedMap.mem_keys_insert index.sources source _ other).mp

/-- Redirecting keeps an index regular. Sources neither come nor go, and the
second table may be any: what it holds are targets, and those have no part in
the order. -/
theorem Regular.redirect (regular : index.Regular) (second : LineTable) :
    (index.redirect second).Regular where
  sound := regular.sound.redirect compareSources_strictOrder_named second
  named := fun source member => by
    rw [redirect_eq] at member
    exact regular.named source ((OrderedMap.keys_rebuild_perm _ index.sources).mem_iff.mp member)

/-- Mappings from a table of sources with names make a regular index. -/
theorem regular_ofMappings {sources : List σ} (named : ∀ source ∈ sources, SourceKey.Named source)
    {mappings : List (Mapping σ)} (fromTable : ∀ mapping ∈ mappings, mapping.source ∈ sources) :
    (ofMappings sources mappings).Regular := by
  have started : (ofSources sources).Regular :=
    List.foldlRecOn sources _ (regular_empty sources) fun _ earlier source member =>
      earlier.includeSource (named source member)
  exact List.foldlRecOn mappings _ started fun _ earlier mapping member =>
    earlier.append (named _ (fromTable mapping member)) _ _ _

/-- The index that a record describes is regular. -/
theorem regular_ofRecord (record : OriginRecord) (order : Option (List σ)) :
    (ofRecord record order).Regular := by
  unfold ofRecord
  refine List.foldlRecOn (Fields.arrange record) _ (regular_empty _) ?_
  rintro index regular ⟨source, lines⟩ _
  exact regular.setLines (SourceKey.named_ofName source) (LineTable.sound_ofRecord lines)

end SourceMap.OriginIndex

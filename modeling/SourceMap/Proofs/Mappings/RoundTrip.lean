import SourceMap.Proofs.Distinct
import SourceMap.Proofs.Mappings.Writing
import SourceMap.Proofs.OriginIndex.Built

/-!
# Round trips

An index that was built with the operations on indexes and passes the check is
written, and reading the text back gives an index of the same sources in the same
order. Every origin has the same targets again, now in the order of their
generated positions; targets of one position keep their order. An origin without
targets is gone, and nothing else is.

Three orders are at work. The index is in the order of origins, the text in that
of generated positions, and the index that is read in that of origins again; the
second sorting is seen at each origin and nowhere else. The index has to have been
built for the order of its sources to be that of its list. Under the check no key
is undefined, and the tables must fit.
-/

namespace SourceMap

/-- The targets of sorted mappings are sorted. -/
theorem Mapping.targetsAt_sortBy (mappings : List Mapping) (source : String)
    (line column : Number) :
    targetsAt (sortBy position mappings) source line column =
      sortBy Target.position (targetsAt mappings source line column) := by
  rw [targetsAt, filter_sortBy]
  exact map_sortBy target Target.position _

/-- A mapping is listed under one of the names given to the sources. -/
theorem OriginIndex.source_mem_of_mem_mappingsUnder {index : OriginIndex} {names : List String}
    {mapping : Mapping} (member : mapping ∈ index.mappingsUnder names) :
    mapping.source ∈ names := by
  obtain ⟨⟨entry, name⟩, listed, inside⟩ := List.mem_flatMap.mp member
  rw [LineTable.source_of_mem_mappings inside]
  exact (List.of_mem_zip listed).2

/-- An index has a mapping from a line exactly if a column of it has targets. -/
theorem OriginIndex.exists_mapping_iff (index : OriginIndex) (source : String) (line : Number) :
    (∃ mapping ∈ index.mappings, mapping.source = source ∧ mapping.line = line) ↔
      ∃ column, index.targetsAt source line column ≠ [] := by
  constructor
  · rintro ⟨mapping, member, rfl, rfl⟩
    refine ⟨mapping.column, ?_⟩
    rw [← OriginIndex.targetsAt_mappings, Mapping.targetsAt, Ne, List.map_eq_nil_iff]
    exact List.ne_nil_of_mem (List.mem_filter.mpr ⟨member, by simp [Mapping.isAt]⟩)
  · rintro ⟨column, inhabited⟩
    rw [← OriginIndex.targetsAt_mappings, Mapping.targetsAt, Ne, List.map_eq_nil_iff] at inhabited
    obtain ⟨mapping, member⟩ := List.exists_mem_of_ne_nil _ inhabited
    obtain ⟨listed, here⟩ := List.mem_filter.mp member
    obtain ⟨sameSource, sameLine, _⟩ : mapping.source = source ∧ mapping.line = line ∧
        mapping.column = column := by simpa [Mapping.isAt] using here
    exact ⟨mapping, listed, sameSource, sameLine⟩

namespace Mappings

/-- Writing a checked index succeeds, and so does reading the text under the
tables written with it. The sources are the same and in the same order; each
origin stores its targets, stably sorted by generated position, or nothing if it
has none; and the lines left are those of the origins that have targets.

Proof: reading what was written gives the index of the same mappings, added in
the order of their generated positions. At one origin such an index has the
targets in the order in which they were added, and selecting an origin goes
through a sorting. -/
theorem read_written {index : OriginIndex} (built : index.Built) (valid : index.check = .ok ())
    (sourcesFit : index.sourceNames.length ≤ Coordinate.greatest + 1)
    (namesFit : index.names.length ≤ Coordinate.greatest + 1) :
    ∃ written again, write index = .ok written ∧
      read written.text written.sources written.names = .ok again ∧
      again.sourceNames = index.sourceNames ∧
      (∀ source line column, again.targetsAt source line column =
        sortBy Target.position (index.targetsAt source line column)) ∧
      (∀ source line column, again.stored? source line column = none ↔
        index.targetsAt source line column = []) ∧
      ∀ source line, again.HasLine source line ↔
        ∃ column, index.targetsAt source line column ≠ [] := by
  have sound := built.sound
  obtain ⟨written, wrote, sources, _, readBack⟩ := read_write valid sourcesFit namesFit rfl
  rw [OriginIndex.mappingsUnder_sourceNames] at readBack
  have targets (source : String) (line column : Number) :
      Mapping.targetsAt (sortBy Mapping.position index.mappings) source line column =
        sortBy Target.position (index.targetsAt source line column) := by
    rw [Mapping.targetsAt_sortBy, OriginIndex.targetsAt_mappings]
  have listed : ∀ mapping ∈ sortBy Mapping.position index.mappings,
      mapping.source ∈ index.sourceNames := by
    intro mapping member
    rw [mem_sortBy, ← OriginIndex.mappingsUnder_sourceNames] at member
    exact OriginIndex.source_mem_of_mem_mappingsUnder member
  refine ⟨written, .ofMappings index.sourceNames (sortBy Mapping.position index.mappings), wrote,
    ?_, ?_, ?_, ?_, ?_⟩
  · rw [sources, readBack]
  · rw [OriginIndex.sourceNames_ofMappings listed, eraseDups_of_nodup index.nodup_sourceNames]
  · intro source line column
    rw [OriginIndex.targetsAt_ofMappings, targets]
  · intro source line column
    rw [OriginIndex.stored?_ofMappings, targets]
    by_cases nothing : index.targetsAt source line column = []
    · simp [nothing]
    · simp [nothing]
  · intro source line
    rw [OriginIndex.hasLine_ofMappings, ← index.exists_mapping_iff]
    simp only [mem_sortBy]

/-- Two targets of one origin, against the order of their positions, and an
origin without any. -/
def shuffledIndex : OriginIndex :=
  (((OriginIndex.empty ["b.ts", "a.ts"]).append "a.ts" 3 1
    [.placed 1 7 (some ""), .placed 0 9 none]).includeSource "b.ts").append "b.ts" 0 0 []

/-- Writing and reading puts the two targets in order and leaves out the empty
origin. -/
theorem read_written_shuffledIndex :
    ∃ written again, write shuffledIndex = .ok written ∧
      read written.text written.sources written.names = .ok again ∧
      again.sourceNames = ["b.ts", "a.ts"] ∧
      again.targetsAt "a.ts" 3 1 = [.placed 0 9 none, .placed 1 7 (some "")] ∧
      again.stored? "b.ts" 0 0 = none := by
  have built : shuffledIndex.Built :=
    .append _ _ _ _ (.includeSource _ (.append _ _ _ _ (.empty _)))
  obtain ⟨written, again, wrote, readBack, sources, targets, stored, _⟩ :=
    read_written built (by cbv) (by decide +kernel) (by decide +kernel)
  have held : shuffledIndex.targetsAt "a.ts" 3 1 = [.placed 1 7 (some ""), .placed 0 9 none] := by
    cbv
  refine ⟨written, again, wrote, readBack, sources.trans (by cbv), ?_, ?_⟩
  · rw [targets, held]
    cbv
  · rw [stored]
    cbv

end Mappings
end SourceMap

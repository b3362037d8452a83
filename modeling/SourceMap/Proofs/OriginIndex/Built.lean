import SourceMap.Proofs.Mappings.Reading

/-!
# Built indexes

A program gets hold of an index by starting one and working on it, by reading a
mappings text, by reading a record, or by redirecting another index. All of these
come down to a few operations: starting an index, making sure of a source, setting
the lines of a source to a table that was built, appending at an origin, and
redirecting. Appending makes the source, the line and the column where they are
missing, so adding a target and making sure of a column are both cases of it. Each
operation keeps an index sound, so every index that was built is.

This is the domain of results on indexes that need soundness. It is a domain of
indexes that come about, not of well-formed values: an index that was put together
by hand from sorted tables with a line without columns is sound at every other
point and was not built.
-/

namespace SourceMap

/-- A table of lines that was built with the operations on tables. -/
inductive LineTable.Built : LineTable → Prop
  | empty : Built OrderedMap.empty
  | append {lines : LineTable} (line column : Number) (targets : List Target) :
      Built lines → Built (lines.append line column targets)
  | redirect {lines : LineTable} (second : LineTable) :
      Built lines → Built (lines.redirect second)

/-- Every table of lines that was built is sound. -/
theorem LineTable.Built.sound {lines : LineTable} (built : lines.Built) : lines.Sound := by
  induction built with
  | empty => exact sound_empty
  | append line column targets _ inductionHypothesis =>
    exact inductionHypothesis.append line column targets
  | redirect second _ inductionHypothesis => exact inductionHypothesis.redirect second

namespace OriginIndex

/-- An index that was built with the operations on indexes. Appending no target
at all makes sure of a column. -/
inductive Built : OriginIndex → Prop
  | empty (order : List String) : Built (empty order)
  | includeSource {index : OriginIndex} (source : String) :
      Built index → Built (index.includeSource source)
  | setLines {index : OriginIndex} (source : String) {lines : LineTable} :
      Built index → lines.Built → Built (index.setLines source lines)
  | append {index : OriginIndex} (source : String) (line column : Number)
      (targets : List Target) : Built index → Built (index.append source line column targets)
  | redirect {index : OriginIndex} (second : LineTable) :
      Built index → Built (index.redirect second)

/-- Every index that was built is sound. The induction is on how it was built,
and the lines that are set for a source are sound for the same reason. -/
theorem Built.sound {index : OriginIndex} (built : index.Built) : index.Sound := by
  induction built with
  | empty order => exact sound_empty order
  | includeSource source _ inductionHypothesis => exact inductionHypothesis.includeSource source
  | setLines source _ linesBuilt inductionHypothesis =>
    exact inductionHypothesis.setLines source linesBuilt.sound
  | append source line column targets _ inductionHypothesis =>
    exact inductionHypothesis.append source line column targets
  | redirect second _ inductionHypothesis => exact inductionHypothesis.redirect second

/-- The index of mappings was built. -/
theorem built_ofMappings (sources : List String) (mappings : List Mapping) :
    (ofMappings sources mappings).Built := by
  refine List.foldlRecOn mappings _ ?_ fun _ built mapping _ =>
    built.append mapping.source mapping.line mapping.column [mapping.target]
  exact List.foldlRecOn sources _ (.empty sources) fun _ built source _ =>
    built.includeSource source

/-- The index that a mappings text describes was built. -/
theorem built_read {text : String} {sources names : List String} {index : OriginIndex}
    (success : Mappings.read text sources names = .ok index) : index.Built := by
  obtain ⟨mappings, _, rfl⟩ := Mappings.read_eq_ok.mp success
  exact built_ofMappings sources mappings

end OriginIndex
end SourceMap

import SourceMap.Proofs.Document.Composition
import SourceMap.Proofs.Mappings.GeneratedPlaces
import SourceMap.Proofs.Mappings.TokenCount

/-!
# The accounts of a composition

A composition says how many positions it kept and how many it dropped. Both are
told from the texts alone: each segment of the first document leads to some place
in the intermediate file, and has there as many counterparts as the second
document knows positions. A segment without any is dropped, every other one is
kept once for each of its counterparts, and what is kept are the segments of the
text that comes out.

The composition itself counts while it redirects; that its two counters are what
is kept and dropped of the targets is proved in `OriginIndex.Counting`. Here
targets are compared with segments. Reading and writing neither lose nor repeat
one, but they put them in different orders, so everything is stated up to order.
The mappings of the first document may not have long values; those of the second
may.
-/

namespace SourceMap

/-- What an index holds in a file where the segments of a text lead, one list
for each segment. -/
def OriginIndex.counterparts (index : OriginIndex) (file text : String) : List (List Target) :=
  (Mappings.generatedPlaces (Mappings.wires text.toList)).map fun (line, column) =>
    index.targetsAt file (.ofNat line) column

/-- A text has one list of counterparts for each segment. -/
theorem OriginIndex.length_counterparts (index : OriginIndex) (file text : String) :
    (index.counterparts file text).length = (Mappings.wires text.toList).length := by
  rw [counterparts, List.length_map, Mappings.length_generatedPlaces]

/-- The targets of an index that was read lead to the counterparts of the
segments, in some order. -/
theorem OriginIndex.map_onward_perm {text : String} {sources names : List String}
    {early : OriginIndex} (short : ¬Vlq.HasLongValue text.toList)
    (success : Mappings.read text sources names = .ok early) (late : OriginIndex) (file : String) :
    (early.targets.map (late.onward file)).Perm (late.counterparts file text) := by
  obtain ⟨targets, perm, stand⟩ := Mappings.exists_targets_perm_of_read short success
  have same : List.Forall₂ Eq (targets.map (late.onward file)) (late.counterparts file text) := by
    rw [counterparts, List.forall₂_map_left_iff, List.forall₂_map_right_iff]
    refine stand.imp ?_
    rintro _ place ⟨name, rfl⟩
    rfl
  rw [List.forall₂_eq_eq_eq] at same
  exact same ▸ perm.map _

namespace Document

/-- A composed document has as many segments as the redirected index has
targets. -/
theorem Composes.length_wires {first second document : Document} {options : ComposeOptions}
    {early late : OriginIndex} {file : String} {lines : LineTable}
    (composes : Composes first second options document early late file lines) :
    (Mappings.wires document.mappings.toList).length = (early.redirect lines).count := by
  obtain ⟨lineCount, _, success⟩ := Walk.bind_eq_ok.mp composes.written
  obtain ⟨written, wrote, success⟩ := Walk.bind_eq_ok.mp success
  obtain rfl := Except.ok.inj success
  rw [Mappings.wires_eq, List.length_map]
  exact Mappings.length_tokens_of_write wrote

/-- The accounts of a composition whose first document has no long value. What
it kept are the segments of the composed document. What it dropped are the
segments of the first document without a counterpart in the intermediate file;
together with those that have one they are all segments. And what it kept are
the counterparts of all segments, counted for each segment anew.

Proof: the targets of the first index lead where its segments lead, in some
order, so the lists of what they lead to are the counterparts of the segments. A
document has as many tokens as the index that it was written for has targets. -/
theorem compose_accounts {first second : Document} {options : ComposeOptions} {composed : Composed}
    (short : ¬Vlq.HasLongValue first.mappings.toList)
    (success : compose first second options = .ok composed) :
    ∃ late file,
      second.index = .ok late ∧ file ∈ second.sources ∧
      (options.intermediate = some file ∨
        options.intermediate = none ∧ second.sources.eraseDups = [file]) ∧
      composed.kept = (Mappings.wires composed.document.mappings.toList).length ∧
      composed.dropped = ((late.counterparts file first.mappings).filter List.isEmpty).length ∧
      composed.dropped + ((late.counterparts file first.mappings).filter (!·.isEmpty)).length =
        (Mappings.wires first.mappings.toList).length ∧
      composed.kept = ((late.counterparts file first.mappings).map List.length).sum := by
  obtain ⟨early, late, file, lines, composes, kept, dropped⟩ := exists_composes_counted success
  -- The index lists its targets by origin and the text by place, so they agree up to order only.
  have leads := OriginIndex.map_onward_perm short composes.firstRead late file
  have passed : lines.onward = late.onward file :=
    funext fun target => OriginIndex.onward_eq composes.found target
  have lost : composed.dropped =
      ((late.counterparts file first.mappings).filter List.isEmpty).length := by
    rw [dropped, passed, ← (leads.filter _).length_eq, List.filter_map, List.length_map]
    rfl
  refine ⟨late, file, composes.secondRead, composes.file_mem, composes.chosen,
    kept.trans composes.length_wires.symm, lost, ?_, ?_⟩
  · rw [lost, ← OriginIndex.length_counterparts late file]
    exact (List.length_eq_length_filter_add List.isEmpty).symm
  · calc composed.kept
        = (early.targets.flatMap lines.onward).length := by
          rw [kept, OriginIndex.count, (OriginIndex.targets_redirect_perm _ lines).length_eq]
      _ = ((early.targets.map (late.onward file)).map List.length).sum := by
          rw [List.length_flatMap, passed, List.map_map]
          rfl
      _ = ((late.counterparts file first.mappings).map List.length).sum :=
          (leads.map List.length).sum_eq

/-- Of four segments one leads nowhere, one to a single position and two to the
same two. -/
theorem compose_accounts_typed :
    ∃ composed, compose typed minified {} = .ok composed ∧ composed.kept = 5 ∧
      composed.dropped = 1 ∧ (Mappings.wires composed.document.mappings.toList).length = 5 := by
  obtain ⟨composed, success⟩ : ∃ composed, compose typed minified {} = .ok composed :=
    Walk.exists_of_isOk (by cbv)
  have short : ¬Vlq.HasLongValue typed.mappings.toList :=
    Vlq.not_hasLongValue_of_length_le (by decide)
  obtain ⟨late, file, secondRead, listed, _, kept, dropped, _, counted⟩ :=
    compose_accounts short success
  obtain rfl : file = "mid.js" := by simpa [minified] using listed
  have isLate : minified.index = .ok ((OriginIndex.empty ["mid.js"]).append "mid.js" 0 2
      [.placed 0 0 none, .placed 0 4 (some "n")] |>.append "mid.js" 0 0 [.placed 0 9 none]) := by
    cbv
  obtain rfl := Except.ok.inj (secondRead.symm.trans isLate)
  have keptFive : composed.kept = 5 := counted.trans (by cbv)
  exact ⟨composed, success, keptFive, dropped.trans (by cbv), kept.symm.trans keptFive⟩

end Document
end SourceMap

import SourceMap.Proofs.Mappings.Offsets

/-!
# How many tokens are written

Whatever an index holds, if it is written then as one token for each of its
targets: no text of a segment is empty or has a separator in it, so the groups are
taken apart into as many tokens as there were segments, and sorting the placements
into lines neither loses nor repeats any.

There is no condition on the index beyond its being written. In particular the
tables need not fit and the index need not have been built, since what is counted
are separators and not what the digits between them spell.
-/

namespace SourceMap
namespace Mappings

/-- Whether a group joins as many texts as given, which can be taken apart
again. -/
def Joins (group : List Char) (count : Nat) : Prop :=
  ∃ texts, group = [','].intercalate texts ∧ PlainTexts texts ∧ texts.length = count

/-- The tokens of a group are as many as the texts that it joins. -/
theorem Joins.length_groupTokens {group : List Char} {count : Nat} (joins : Joins group count)
    (line : Nat) : (groupTokens line group).length = count := by
  obtain ⟨texts, rfl, plain, rfl⟩ := joins
  rw [plain.groupTokens_intercalate, lineTokens, List.length_map, List.length_zipIdx]

section Groups

variable {α : Type} {groups : List (List Char)} {rows : List (List α)}

/-- Groups that join texts have no line separator in them. -/
theorem not_mem_of_joins
    (joined : List.Forall₂ (fun group row => Joins group row.length) groups rows) :
    ∀ group ∈ groups, ';' ∉ group := by
  intro group member
  obtain ⟨row, _, texts, rfl, plain, _⟩ := Walk.exists_of_forall₂_mem joined member
  exact plain.not_mem_intercalate

/-- The tokens of groups are as many as the texts that they join. -/
theorem length_tokensFrom_of_joins
    (joined : List.Forall₂ (fun group row => Joins group row.length) groups rows) (start : Nat) :
    (tokensFrom start groups).length = rows.flatten.length := by
  induction joined generalizing start with
  | nil => rfl
  | cons first _ inductionHypothesis =>
    rw [tokensFrom_cons, List.length_append, first.length_groupTokens, inductionHypothesis,
      List.flatten_cons, List.length_append]

end Groups

/-- A line has as many differences as segments. -/
theorem length_lineOffsets (segments : List Segment) (cursor : Cursor) :
    (lineOffsets segments cursor).1.length = segments.length := by
  induction segments generalizing cursor with
  | nil => rfl
  | cons segment rest inductionHypothesis =>
    rw [lineOffsets, List.length_cons, List.length_cons, inductionHypothesis]

/-- A segment differs in some field, be it by zero. -/
theorem ne_nil_of_mem_lineOffsets {segments : List Segment} {cursor : Cursor}
    {offset : List Number} (member : offset ∈ (lineOffsets segments cursor).1) : offset ≠ [] := by
  induction segments generalizing cursor with
  | nil => simp [lineOffsets] at member
  | cons segment rest inductionHypothesis =>
    rcases List.mem_cons.mp member with rfl | later
    · exact List.cons_ne_nil _ _
    · exact inductionHypothesis later

/-- A line that is spelled joins one text for each of its segments. -/
theorem joins_of_spellLine {segments : List Segment} {cursor : Cursor} {group : List Char}
    (spelled : spellLine (lineOffsets segments cursor).1 = .ok group) :
    Joins group segments.length := by
  obtain ⟨texts, encoded, rfl⟩ := Walk.map_eq_ok.mp spelled
  have each := Walk.mapM_eq_ok.mp encoded
  refine ⟨texts, rfl, ?_, each.length_eq.symm.trans (length_lineOffsets segments cursor)⟩
  intro text member
  obtain ⟨offset, listed, success⟩ := Walk.exists_of_forall₂_mem each.flip member
  obtain ⟨integers, same, _, rfl⟩ := Vlq.exists_writeRun_of_encodeRun success
  have inhabited : integers ≠ [] := by
    rintro rfl
    exact ne_nil_of_mem_lineOffsets listed same
  exact ⟨Vlq.writeRun_ne_nil inhabited, fun _ => Vlq.plain_of_mem_writeRun⟩

/-- Lines that are spelled are groups, each of which joins one text for each
segment. -/
theorem joins_of_mapM_spellLine {lines : List (List Segment)} {cursor : Cursor}
    {groups : List (List Char)} (spelled : (offsets lines cursor).mapM spellLine = .ok groups) :
    List.Forall₂ (fun group segments => Joins group segments.length) groups lines := by
  induction lines generalizing cursor groups with
  | nil =>
    obtain rfl := Except.ok.inj spelled
    exact .nil
  | cons segments rest inductionHypothesis =>
    rw [offsets, List.mapM_cons] at spelled
    obtain ⟨first, here, spelled⟩ := Walk.bind_eq_ok.mp spelled
    obtain ⟨others, further, spelled⟩ := Walk.bind_eq_ok.mp spelled
    obtain rfl := Except.ok.inj spelled
    exact .cons (joins_of_spellLine here) (inductionHypothesis further)

/-- The lines that are written have a segment for each placement. -/
theorem length_flatten_segmentRows (placements : List Placement) :
    (segmentRows placements).flatten.length = placements.length := by
  rw [segmentRows, ← List.map_flatten, List.length_map, flatten_rows, length_sortBy]

/-- An index that is written is written as one token for each target. -/
theorem length_tokens_of_write {index : OriginIndex} {written : WrittenMappings}
    (wrote : write index = .ok written) :
    (tokens written.text.toList).length = index.count := by
  rw [write_eq] at wrote
  obtain ⟨placements, placed, wrote⟩ := Walk.bind_eq_ok.mp wrote
  obtain ⟨groups, spelled, rfl⟩ := Walk.map_eq_ok.mp wrote
  have joined := joins_of_mapM_spellLine spelled
  have viewed := (OriginIndex.placements_eq_ok placed rfl).1
  rw [OriginIndex.mappingsUnder_sourceNames] at viewed
  rw [String.toList_ofList, tokens_intercalate (not_mem_of_joins joined),
    length_tokensFrom_of_joins joined, length_flatten_segmentRows, OriginIndex.count_eq, ← viewed,
    List.length_map]

end Mappings
end SourceMap

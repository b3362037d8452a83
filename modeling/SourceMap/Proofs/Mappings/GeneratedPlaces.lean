import SourceMap.Proofs.Mappings.Faults

/-!
# Where segments lead

A segment leads to a place in the generated file: the line that it is on and the
running total of the generated columns of that line. Reading puts one target at
each of these places, however the origins of the segments order them in the index.

The running totals are those of double precision and need not be exact. What is
claimed is a bijection: the targets of the index, in some order, stand one by one
at the places of the segments in theirs. A place that two segments lead to has two
targets. Names and origins are left out, so this is the part of the meaning of a
text that an accounting of positions needs.
-/

namespace SourceMap

/-- Whether a target is placed on a line at a column, perhaps under a name. -/
def Target.StandsAt (target : Target) (place : Nat × Number) : Prop :=
  ∃ name, target = .placed (.ofNat place.1) place.2 name

namespace Mappings

/-- The line of every segment, and the running total of the generated column on
it. -/
def generatedPlaces (wires : List Wire) : List (Nat × Number) :=
  wires.zipIdx.map fun (wire, place) =>
    (wire.line, runningTotal 0 ((wires.take (place + 1)).filter (·.line = wire.line)))

/-- One more segment leads on from the earlier ones of its line. -/
theorem generatedPlaces_concat (done : List Wire) (wire : Wire) :
    generatedPlaces (done ++ [wire]) = generatedPlaces done ++
      [(wire.line, runningTotal 0 ((done ++ [wire]).filter (·.line = wire.line)))] :=
  map_zipIdx_take_concat
    (fun upTo (last : Wire) => (last.line, runningTotal 0 (upTo.filter (·.line = last.line))))
    done wire

/-- There are as many places as segments. -/
theorem length_generatedPlaces (wires : List Wire) :
    (generatedPlaces wires).length = wires.length := by
  rw [generatedPlaces, List.length_map, List.length_zipIdx]

variable {sources names : List String}

/-- A token resolves to a target where its running totals stand. -/
theorem Fielded.standsAt_of_resolve {before : List Token} {token : Token} {cursor next : Cursor}
    {mapping : Mapping} (fielded : Fielded token) (short : ¬Vlq.HasLongValue token.text)
    (start : token.startFrom cursor = standing (before.map Token.wire) token.line)
    (success : token.resolve sources names cursor = .ok (mapping, next)) :
    mapping.target.StandsAt (token.line, (token.standing before).generatedColumn) := by
  rw [fielded.resolve_eq short start, Walk.map_eq_ok] at success
  obtain ⟨resolved, looked, same⟩ := success
  obtain ⟨rfl, _⟩ := Prod.mk.inj same
  refine ⟨resolved.name, ?_⟩
  rw [(resolvesTo_of_resolve looked).generatedColumn]
  rfl

/-- Tokens that are followed lead to targets at their places. The lines are those
of the tokens, and the columns are the sums that were rounded on the way, so
nothing is supposed about how far they go; only long values are excluded. -/
theorem standsAt_of_follow {tokens : List Token}
    (accepted : Throughout (Accepted sources names) tokens) (follows : Throughout Follows tokens)
    (short : ∀ token ∈ tokens, ¬Vlq.HasLongValue token.text) {mappings : List Mapping}
    {cursor : Cursor} (followed : follow sources names .start tokens = .ok (mappings, cursor)) :
    List.Forall₂ Target.StandsAt (mappings.map Mapping.target)
      (generatedPlaces (tokens.map Token.wire)) := by
  -- A place sums up what came before it, so the induction takes tokens off at the end.
  induction tokens using List.reverseRecOn generalizing mappings cursor with
  | nil =>
    obtain ⟨rfl, _⟩ := Prod.mk.inj (Except.ok.inj followed)
    exact .nil
  | append_singleton earlier last inductionHypothesis =>
    obtain ⟨acceptedEarlier, acceptedLast⟩ := throughout_concat.mp accepted
    obtain ⟨followsEarlier, followsLast⟩ := throughout_concat.mp follows
    have shortEarlier : ∀ token ∈ earlier, ¬Vlq.HasLongValue token.text := fun token member =>
      short token (List.mem_append_left [last] member)
    obtain ⟨before, next, there, start⟩ :=
      exists_follow_eq_ok acceptedEarlier followsEarlier shortEarlier
    have others := inductionHypothesis acceptedEarlier followsEarlier shortEarlier there
    rw [follow_append, there] at followed
    obtain ⟨⟨here, reached⟩, single, same⟩ := Walk.map_eq_ok.mp followed
    obtain ⟨⟨mapping, left⟩, resolved, single⟩ := Walk.bind_eq_ok.mp single
    obtain ⟨rfl, _⟩ := Prod.mk.inj (Except.ok.inj single)
    obtain ⟨rfl, _⟩ := Prod.mk.inj same
    have stands := acceptedLast.fielded.standsAt_of_resolve (short last (by simp))
      (start last followsLast) resolved
    rw [List.map_append, List.map_append, List.map_singleton, List.map_singleton,
      generatedPlaces_concat]
    refine List.rel_append others (.cons ?_ .nil)
    rwa [Token.standing, List.map_append, List.map_singleton] at stands

/-- An index that was read holds one target where each segment of the text
leads, and no other. No value of the text may be long; then every value is an
integer, and the cursor is at the running totals of the segments.

Proof: the tokens are accepted, since the text is read, so each of them leads to
a target at the cursor's line and column. Adding the mappings one by one lists
each of them once. -/
theorem exists_targets_perm_of_read {text : String} {index : OriginIndex}
    (short : ¬Vlq.HasLongValue text.toList) (success : read text sources names = .ok index) :
    ∃ targets, index.targets.Perm targets ∧
      List.Forall₂ Target.StandsAt targets (generatedPlaces (wires text.toList)) := by
  have shortTokens : ∀ token ∈ tokens text.toList, ¬Vlq.HasLongValue token.text :=
    fun token => not_hasLongValue_of_mem_tokens short
  have accepted := (exists_read_iff_accepted shortTokens).mp ⟨index, success⟩
  obtain ⟨mappings, resolved, rfl⟩ := read_eq_ok.mp success
  rw [resolveAll_eq, Walk.map_eq_ok] at resolved
  obtain ⟨⟨_, cursor⟩, followed, rfl⟩ := resolved
  refine ⟨_, ?_, wires_eq text.toList ▸ standsAt_of_follow accepted
    (throughout_follows_tokens text.toList) shortTokens followed⟩
  rw [OriginIndex.targets_eq]
  exact (OriginIndex.mappings_ofMappings_perm sources _).map Mapping.target

end Mappings
end SourceMap

import SourceMap.Proofs.Mappings.Following
import SourceMap.Proofs.Mappings.PrefixSums
import SourceMap.Proofs.OriginIndex.Regularity

/-!
# Indexes that stay whole

The checks of a segment's indexes let an undefined index through, and an undefined
index points to no entry. Only a value with more digits than there are places of
finite weight is undefined. So as long as the values of all tokens are integers
the indexes of the cursor stay whole numbers, each that passes its check is a
place of its table, and what is found there is an entry: every source that is read
is one of the table, whatever stands for a missing one.

A whole number may still be infinite, so the argument does not need the totals to
be exact. What carries it from token to token is `Cursor.HasWholeIndexes`.
-/

namespace SourceMap

/-- A cursor at indexes that are whole numbers. -/
structure Cursor.HasWholeIndexes (cursor : Cursor) : Prop where
  source : cursor.sourceIndex.IsWhole
  name : cursor.nameIndex.IsWhole

/-- The cursor at the start of a text is at whole indexes. -/
theorem Cursor.hasWholeIndexes_start : start.HasWholeIndexes :=
  ⟨Number.isWhole_ofInt 0, Number.isWhole_ofInt 0⟩

namespace Mappings

variable {σ : Type} [SourceKey σ] {sources : List σ} {names : List String}

/-- Whether the values of a token are integers, provided that it can be read. -/
def Token.HasIntegers (token : Token) : Prop :=
  ∀ offset, Vlq.readRun token.text = .ok offset → ∃ fields : List Int, offset = fields.map .ofInt

/-- The values of a token without long ones are integers. -/
theorem Token.hasIntegers_of_short {token : Token} (short : ¬Vlq.HasLongValue token.text) :
    token.HasIntegers := fun _ read =>
  let ⟨fields, same, _⟩ := Vlq.of_readRun read short
  ⟨fields, same⟩

/-- A segment at a whole index resolves to a source of the table. -/
theorem ResolvesTo.source_mem {segment : Segment} {resolved : Resolved σ}
    (resolvesTo : ResolvesTo sources names segment resolved)
    (whole : segment.sourceIndex.IsWhole) : resolved.source ∈ sources := by
  have place := whole.isOutside_eq_false_iff.mp resolvesTo.sourceChecked
  obtain ⟨entry, listed⟩ :=
    Option.isSome_iff_exists.mp ((isSome_entryAt?_iff whole sources).mpr place)
  have isEntry := resolvesTo.source
  rw [listed] at isEntry
  exact Except.ok.inj isEntry ▸ mem_of_entryAt? listed

/-- A token of integers that resolves from whole indexes goes on to whole
indexes, and to a source of the table. -/
theorem Token.HasIntegers.of_resolve {token : Token} (integers : token.HasIntegers)
    {cursor next : Cursor} {mapping : Mapping σ} (whole : cursor.HasWholeIndexes)
    (success : token.resolve sources names cursor = .ok (mapping, next)) :
    next.HasWholeIndexes ∧ mapping.source ∈ sources := by
  have started : (token.startFrom cursor).HasWholeIndexes := by
    unfold Token.startFrom
    split
    · exact ⟨whole.source, whole.name⟩
    · exact whole
  obtain ⟨offset, read, success⟩ := Walk.bind_eq_ok.mp success
  obtain ⟨⟨resolved, last⟩, stepped, success⟩ := Walk.bind_eq_ok.mp success
  obtain ⟨⟨segment, left⟩, advanced, stepped⟩ := Walk.bind_eq_ok.mp stepped
  obtain ⟨found, looked, stepped⟩ := Walk.bind_eq_ok.mp stepped
  obtain ⟨rfl, rfl⟩ := Prod.mk.inj (Except.ok.inj stepped)
  obtain ⟨rfl, rfl⟩ := Prod.mk.inj (Except.ok.inj success)
  obtain ⟨fields, rfl⟩ := integers offset (Walk.mapError_eq_ok.mp read)
  obtain ⟨column, source, line, place, name, rfl, rfl, rfl⟩ := advance_ofInt advanced
  have sourceWhole := started.source.add_ofInt source
  refine ⟨⟨sourceWhole, ?_⟩, (resolvesTo_of_resolve looked).source_mem sourceWhole⟩
  cases name with
  | none => exact started.name
  | some step => exact started.name.add_ofInt step

/-- Tokens of integers that are followed from whole indexes lead to whole
indexes, and to sources of the table. The induction is on the tokens; what it
carries is that both indexes are whole. -/
theorem hasWholeIndexes_of_follow {tokens : List Token}
    (integers : ∀ token ∈ tokens, token.HasIntegers) {cursor last : Cursor}
    {mappings : List (Mapping σ)} (whole : cursor.HasWholeIndexes)
    (followed : follow sources names cursor tokens = .ok (mappings, last)) :
    last.HasWholeIndexes ∧ ∀ mapping ∈ mappings, mapping.source ∈ sources := by
  induction tokens generalizing cursor mappings with
  | nil =>
    obtain ⟨rfl, rfl⟩ := Prod.mk.inj (Except.ok.inj followed)
    exact ⟨whole, by simp⟩
  | cons token rest inductionHypothesis =>
    obtain ⟨⟨first, next⟩, here, followed⟩ := Walk.bind_eq_ok.mp followed
    obtain ⟨⟨later, reached⟩, there, followed⟩ := Walk.bind_eq_ok.mp followed
    obtain ⟨rfl, rfl⟩ := Prod.mk.inj (Except.ok.inj followed)
    obtain ⟨nextWhole, listed⟩ := (integers token List.mem_cons_self).of_resolve whole here
    obtain ⟨lastWhole, others⟩ := inductionHypothesis
      (fun other member => integers other (List.mem_cons_of_mem token member)) nextWhole there
    exact ⟨lastWhole, List.forall_mem_cons.mpr ⟨listed, others⟩⟩

/-- A text without long values that is read describes mappings from sources of
the table. -/
theorem exists_ofMappings_of_read [DecidableEq σ] {text : String}
    (short : ¬Vlq.HasLongValue text.toList) {index : OriginIndex σ}
    (success : read text sources names = .ok index) :
    ∃ mappings, OriginIndex.ofMappings sources mappings = index ∧
      ∀ mapping ∈ mappings, mapping.source ∈ sources := by
  obtain ⟨mappings, resolved, isIndex⟩ := read_eq_ok.mp success
  rw [resolveAll_eq, Walk.map_eq_ok] at resolved
  obtain ⟨⟨followedTo, last⟩, followed, rfl⟩ := resolved
  have integers : ∀ token ∈ tokens text.toList, token.HasIntegers := fun token member =>
    token.hasIntegers_of_short (not_hasLongValue_of_mem_tokens short member)
  exact ⟨followedTo, isIndex,
    (hasWholeIndexes_of_follow integers Cursor.hasWholeIndexes_start followed).2⟩

/-- The index that a text without long values describes under a table of names
is regular. Under optional names, this is where the missing source is ruled out:
no token leads to it. -/
theorem regular_of_read [DecidableEq σ] [LawfulSourceKey σ] {text : String}
    (short : ¬Vlq.HasLongValue text.toList) (named : ∀ source ∈ sources, SourceKey.Named source)
    {index : OriginIndex σ} (success : read text sources names = .ok index) : index.Regular := by
  obtain ⟨mappings, rfl, fromTable⟩ := exists_ofMappings_of_read short success
  exact OriginIndex.regular_ofMappings named fromTable

end Mappings
end SourceMap

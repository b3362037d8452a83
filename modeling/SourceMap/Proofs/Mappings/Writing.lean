import SourceMap.Proofs.Mappings.Reading
import SourceMap.Proofs.Mappings.TextOrder
import SourceMap.Proofs.Number.Whole
import SourceMap.Proofs.Segment
import SourceMap.Proofs.Separators

/-!
# Reading what was written

A written text is taken apart at its separators into the tokens that were joined,
since no run of digits holds a separator and no line with a segment is blank.
Writing and reading go through the tokens with the same cursor: each token
resolves to the mapping of the placement that it was written for.

The induction is made three times, over the segments of a line, over the lines,
and over the digits of a segment, which is a matter of
`Segment.InRange.encodeRun_offsetFrom`. Along a line the cursors are equal; from
line to line they agree but for the generated column, which the first token of a
line does not look at. The tables of sources may be exchanged for any other of the
same length, since a segment points to a place: that is how a naming of sources
comes in.
-/

namespace SourceMap
namespace Mappings

/-- Texts that can be joined and taken apart again: none is empty, and each is
plain. -/
def PlainTexts (texts : List (List Char)) : Prop :=
  ∀ text ∈ texts, text ≠ [] ∧ ∀ char ∈ text, Vlq.Plain char

/-- Whether a segment under the given tables can point from where a placement
says to where it says. -/
structure Writable (sources names : List String) (placement : Placement) : Prop where
  inRange : placement.InRange
  source : placement.source < sources.length
  sourceInRange : placement.source ≤ Coordinate.greatest
  name : ∀ name, placement.name = some name → name ∈ names
  nameInRange : ∀ name, placement.name = some name → names.idxOf name ≤ Coordinate.greatest

/-- A natural number is not refused as negative. -/
theorem refuseNegative_ofNat (defect : Number → SegmentDefect) (value : Nat)
    (location : Location) : Segment.refuseNegative defect (.ofNat value) location = .ok () := by
  have nonnegative : ¬((value : Rat) < 0) := not_lt.mpr (Nat.cast_nonneg value)
  simp [Segment.refuseNegative, Number.isNegative, Number.ofNat, nonnegative]

/-- An entry is found at its place. -/
theorem lookUp_ofNat (table : Table) {entries : List String} {place : Nat} {entry : String}
    (found : entries[place]? = some entry) (location : Location) :
    Segment.lookUp table entries (.ofNat place) location = .ok (some entry) := by
  obtain ⟨inside, _⟩ := List.getElem?_eq_some_iff.mp found
  have checked : (Number.ofNat place).isOutside entries.length = false :=
    Number.isOutside_ofInt_eq_false_iff.mpr ⟨by omega, by omega⟩
  exact lookUp_eq_ok.mpr ⟨checked, by simp [entryAt?, found]⟩

namespace Writable

variable {sources names : List String} {placement : Placement}

/-- All fields of the segment are coordinates. -/
theorem inRange_segmentOf (writable : Writable sources names placement) :
    (segmentOf names placement).InRange where
  generatedColumn := ⟨_, writable.inRange.generatedColumn, rfl⟩
  sourceIndex := ⟨_, writable.sourceInRange, rfl⟩
  originalLine := ⟨_, writable.inRange.originalLine, rfl⟩
  originalColumn := ⟨_, writable.inRange.originalColumn, rfl⟩
  nameIndex := by
    intro index found
    obtain ⟨name, named, rfl⟩ := Option.map_eq_some_iff.mp found
    exact ⟨_, writable.nameInRange name named, rfl⟩

/-- The segment resolves to what the placement holds. -/
theorem resolve_segmentOf (writable : Writable sources names placement) (location : Location) :
    (segmentOf names placement).resolve sources names location =
      .ok ⟨.ofNat placement.generatedColumn, sources[placement.source]?.getD "",
        .ofNat placement.originalLine, .ofNat placement.originalColumn, placement.name⟩ := by
  have sourceFound : Segment.lookUp .sources sources (.ofNat placement.source) location =
      .ok (some (sources[placement.source]?.getD "")) :=
    lookUp_ofNat .sources (by simp [writable.source]) location
  have nameFound : Segment.lookUpName names
      (placement.name.map fun name => .ofNat (names.idxOf name)) location = .ok placement.name := by
    cases named : placement.name with
    | none => rfl
    | some name =>
      have listed : names[names.idxOf name]? = some name :=
        List.getElem?_idxOf (writable.name name named)
      exact lookUp_ofNat .names listed location
  simp only [Segment.resolve, segmentOf, refuseNegative_ofNat, sourceFound, nameFound]
  rfl

/-- The segment is written as a token that resolves to the mapping of the
placement and leaves the cursor where writing left it. This is the step of the
induction; the token may have any number on its line, as long as the cursor is
the one that it starts from. -/
theorem resolve_token (writable : Writable sources names placement) {cursor : Cursor}
    (cursorInRange : cursor.InRange) :
    ∃ text, Vlq.encodeRun ((segmentOf names placement).offsetFrom cursor).1 = .ok text ∧
      text ≠ [] ∧ (∀ char ∈ text, Vlq.Plain char) ∧
      ∀ token : Token, token.text = text → token.line = placement.generatedLine →
        token.startFrom cursor = cursor →
        token.resolve sources names cursor =
          .ok (placement.mapping sources, ((segmentOf names placement).offsetFrom cursor).2) := by
  obtain ⟨text, encoded, filled, plain, offset, read, advanced⟩ :=
    writable.inRange_segmentOf.encodeRun_offsetFrom cursorInRange
  refine ⟨text, encoded, filled, plain, ?_⟩
  intro token sameText sameLine start
  have stepped : cursor.step offset sources names token.location =
      .ok (⟨.ofNat placement.generatedColumn, sources[placement.source]?.getD "",
        .ofNat placement.originalLine, .ofNat placement.originalColumn, placement.name⟩,
        ((segmentOf names placement).offsetFrom cursor).2) :=
    Walk.bind_eq_ok.mpr ⟨_, advanced _, Walk.bind_eq_ok.mpr ⟨_, writable.resolve_segmentOf _, rfl⟩⟩
  refine Walk.bind_eq_ok.mpr ⟨offset, ?_, Walk.bind_eq_ok.mpr ⟨_, start.symm ▸ stepped, ?_⟩⟩
  · rw [sameText, read]
    rfl
  · rw [sameLine, start]
    rfl

end Writable

variable {sources names : List String}

/-- The segments of a line are written as tokens that resolve to the mappings of
its placements and leave the cursor where writing left it.

The tokens are stated at any place of a line, since the induction takes off the
first of them and the others stand behind it. Only the first token of a line asks
for a cursor that starts the line; what comes after the line is any run of tokens,
which goes on from the cursor that the line left. -/
theorem resolveAll_writeSegments {row : List Placement}
    (writable : ∀ placement ∈ row, Writable sources names placement) {cursor : Cursor}
    (cursorInRange : cursor.InRange) :
    ∃ texts last, writeSegments (row.map (segmentOf names)) cursor = .ok (texts, last) ∧
      last.InRange ∧ texts.length = row.length ∧ PlainTexts texts ∧
      ∀ line start more, (∀ placement ∈ row, placement.generatedLine = line) →
        (start = 0 → cursor.newLine = cursor) →
        resolveAll sources names cursor (lineTokens line start texts ++ more) =
          (resolveAll sources names last more).map (row.map (Placement.mapping sources) ++ ·) := by
  induction row generalizing cursor with
  | nil =>
    refine ⟨[], cursor, rfl, cursorInRange, rfl, by simp [PlainTexts], ?_⟩
    intro line start more _ _
    rw [lineTokens_nil, List.nil_append]
    cases resolveAll sources names cursor more <;> rfl
  | cons placement rest inductionHypothesis =>
    have firstWritable := writable placement List.mem_cons_self
    obtain ⟨text, encoded, filled, plain, resolved⟩ := firstWritable.resolve_token cursorInRange
    have restWritable : ∀ other ∈ rest, Writable sources names other := fun other member =>
      writable other (List.mem_cons_of_mem placement member)
    obtain ⟨texts, last, written, lastInRange, length, plainRest, further⟩ :=
      inductionHypothesis restWritable
        (firstWritable.inRange_segmentOf.offsetFrom cursorInRange)
    refine ⟨text :: texts, last, ?_, lastInRange, by simp [length], ?_, ?_⟩
    · simp only [List.map_cons, writeSegments, encoded, written]
      rfl
    · intro other member
      rcases List.mem_cons.mp member with rfl | later
      · exact ⟨filled, plain⟩
      · exact plainRest other later
    · intro line start more onLine fresh
      have here := resolved ⟨line, start, text⟩ rfl (onLine placement List.mem_cons_self).symm (by
        by_cases first : start = 0
        · simp [Token.startFrom, first, fresh first]
        · simp [Token.startFrom, first])
      have later := further line (start + 1) more
        (fun other member => onLine other (List.mem_cons_of_mem placement member))
        (fun impossible => absurd impossible (by omega))
      simp only [lineTokens_cons, List.cons_append, resolveAll, here]
      change Except.bind (resolveAll sources names _ (_ ++ more)) _ = _
      rw [later]
      cases resolveAll sources names last more <;> rfl

/-- The tokens of a line do not see where the line before it ended. -/
theorem resolveAll_lineTokens {cursor other : Cursor} (alike : cursor.newLine = other.newLine)
    (line : Nat) {texts : List (List Char)} (inhabited : texts ≠ []) (more : List Token) :
    resolveAll sources names cursor (lineTokens line 0 texts ++ more) =
      resolveAll sources names other (lineTokens line 0 texts ++ more) := by
  obtain ⟨text, rest, rfl⟩ := List.exists_cons_of_ne_nil inhabited
  rw [lineTokens_cons, List.cons_append, resolveAll, resolveAll,
    ← Token.resolve_newLine sources names cursor _ rfl, alike,
    Token.resolve_newLine sources names other _ rfl]

/-- A line of plain texts has no line separator. -/
theorem PlainTexts.not_mem_intercalate {texts : List (List Char)} (plain : PlainTexts texts) :
    ';' ∉ [','].intercalate texts := by
  intro inside
  rcases of_mem_intercalate inside with different | ⟨text, listed, digit⟩
  · exact absurd different (by decide)
  · exact ((plain text listed).2 ';' digit).2.1 rfl

/-- A line of plain texts is taken apart into them. -/
theorem PlainTexts.groupTokens_intercalate {texts : List (List Char)} (plain : PlainTexts texts)
    (line : Nat) : groupTokens line ([','].intercalate texts) = lineTokens line 0 texts := by
  cases texts with
  | nil => rfl
  | cons text rest =>
    obtain ⟨char, tail, spelled⟩ := List.exists_cons_of_ne_nil (plain text List.mem_cons_self).1
    have visible : Blank.isBlank char = false :=
      ((plain text List.mem_cons_self).2 char (by simp [spelled])).2.2
    have filled : Blank.isBlankText ([','].intercalate (text :: rest)) = false := by
      have first : char ∈ [','].intercalate (text :: rest) := by
        cases rest <;> simp [spelled, List.intercalate_cons_cons]
      exact List.all_eq_false.mpr ⟨char, first, by simp [visible]⟩
    have split : ([','].intercalate (text :: rest)).splitOn ',' = text :: rest :=
      List.splitOn_intercalate ',' (fun other member inside =>
        ((plain other member).2 ',' inside).1 rfl) (by simp)
    rw [groupTokens_of_not_blank line filled, split]

/-- A text is taken apart into the lines that were joined. -/
theorem tokens_intercalate {groups : List (List Char)} (plain : ∀ group ∈ groups, ';' ∉ group) :
    tokens ([';'].intercalate groups) = tokensFrom 0 groups := by
  cases groups with
  | nil => rfl
  | cons group rest => rw [tokens, List.splitOn_intercalate ';' plain (by simp)]

/-- The lines are written as groups whose tokens resolve to the mappings of the
placements, line by line. The cursor of the reader may differ from that of the
writer in the generated column.

Proof: by induction on the lines. An empty line is written as an empty group,
which has no token, and both cursors start the next line afresh. Any other line
is taken apart into its tokens, and the cursor that they leave is the one that
the writer goes on with. -/
theorem resolveAll_writeLines {rows : List (List Placement)}
    (writable : ∀ row ∈ rows, ∀ placement ∈ row, Writable sources names placement)
    {cursor : Cursor} (cursorInRange : cursor.InRange) :
    ∃ groups, writeLines (rows.map fun row => row.map (segmentOf names)) cursor = .ok groups ∧
      (∀ group ∈ groups, ';' ∉ group) ∧
      ∀ start other,
        (∀ entry ∈ rows.zipIdx start, ∀ placement ∈ entry.1, placement.generatedLine = entry.2) →
        other.newLine = cursor.newLine →
        resolveAll sources names other (tokensFrom start groups) =
          .ok (rows.flatten.map (Placement.mapping sources)) := by
  induction rows generalizing cursor with
  | nil => exact ⟨[], rfl, by simp, fun _ _ _ _ => rfl⟩
  | cons row rest inductionHypothesis =>
    obtain ⟨texts, last, written, lastInRange, length, plain, resolved⟩ :=
      resolveAll_writeSegments (writable row List.mem_cons_self) cursorInRange.newLine
    obtain ⟨groups, writtenRest, plainRest, resolvedRest⟩ :=
      inductionHypothesis (fun other member => writable other (List.mem_cons_of_mem row member))
        lastInRange
    refine ⟨[','].intercalate texts :: groups, ?_, ?_, ?_⟩
    · simp only [List.map_cons, writeLines, written]
      change Except.bind (writeLines _ last) _ = _
      rw [writtenRest]
      rfl
    · intro group member
      rcases List.mem_cons.mp member with rfl | later
      · exact plain.not_mem_intercalate
      · exact plainRest group later
    · intro start other onLine alike
      have rowLine : ∀ placement ∈ row, placement.generatedLine = start :=
        onLine (row, start) (by simp)
      have restLine : ∀ entry ∈ rest.zipIdx (start + 1), ∀ placement ∈ entry.1,
          placement.generatedLine = entry.2 := fun entry member =>
        onLine entry (by simp [List.zipIdx_cons, member])
      rw [tokensFrom_cons, plain.groupTokens_intercalate, List.flatten_cons, List.map_append]
      by_cases nothing : texts = []
      · -- An empty line leaves the cursor at its start, which the next line does not see.
        subst nothing
        obtain rfl : row = [] := List.eq_nil_of_length_eq_zero length.symm
        obtain rfl : cursor.newLine = last := by simpa [writeSegments] using written
        exact resolvedRest (start + 1) other restLine alike
      · have next : cursor.newLine.newLine = cursor.newLine := rfl
        rw [resolveAll_lineTokens (alike.trans next.symm) start nothing,
          resolved start 0 _ rowLine (fun _ => rfl), resolvedRest (start + 1) last restLine rfl]
        rfl

/-- What a placement needs in order to be written: it is in range, and the
tables of the index fit its indexes. -/
theorem writable_of_placements {index : OriginIndex} {placements : List Placement}
    (placed : index.placements = .ok placements)
    (sourcesFit : index.sourceNames.length ≤ Coordinate.greatest + 1)
    (namesFit : (nameTable placements).length ≤ Coordinate.greatest + 1)
    (length : sources.length = index.sourceNames.length) :
    ∀ placement ∈ placements, Writable sources (nameTable placements) placement := by
  intro placement member
  obtain ⟨inRange, source⟩ := (OriginIndex.placements_eq_ok placed length).2 placement member
  have listed : ∀ name, placement.name = some name → name ∈ nameTable placements := by
    intro name named
    exact List.mem_eraseDups.mpr (List.mem_filterMap.mpr ⟨placement, member, named⟩)
  refine ⟨inRange, length ▸ source, by omega, listed, ?_⟩
  intro name named
  have inside := List.idxOf_lt_length_iff.mpr (listed name named)
  omega

/-- The table of names of the placements of an index is that of the index. -/
theorem nameTable_eq_names {index : OriginIndex} {placements : List Placement}
    (placed : index.placements = .ok placements) : nameTable placements = index.names := by
  have viewed := (OriginIndex.placements_eq_ok placed rfl).1
  rw [OriginIndex.mappingsUnder_sourceNames] at viewed
  have targets : placements.map Placement.target = index.targets := by
    rw [OriginIndex.targets_eq, ← viewed, List.map_map]
    rfl
  rw [nameTable, OriginIndex.names, ← targets, List.filterMap_map]
  congr 2
  funext placement
  exact placement.name?_target.symm

/-- The lines that are written hold the mappings of an index, sorted by
generated position. -/
theorem map_mapping_flatten_rows {index : OriginIndex} {placements : List Placement}
    (placed : index.placements = .ok placements)
    (length : sources.length = index.sourceNames.length) :
    (rows placements).flatten.map (Placement.mapping sources) =
      sortBy Mapping.position (index.mappingsUnder sources) := by
  have positions : Mapping.position ∘ Placement.mapping sources = Placement.position :=
    funext (Placement.position_mapping sources)
  rw [flatten_rows, ← (OriginIndex.placements_eq_ok placed length).1, ← map_sortBy, positions]

/-- An index that passes the check is written, and what was written is read
back, with any names in place of those of the sources: as the index of the same
mappings, sorted by generated position. The names need not be different;
mappings of sources that share a name are then mappings of one source. -/
theorem read_write {index : OriginIndex} (valid : index.check = .ok ())
    (sourcesFit : index.sourceNames.length ≤ Coordinate.greatest + 1)
    (namesFit : index.names.length ≤ Coordinate.greatest + 1)
    (length : sources.length = index.sourceNames.length) :
    ∃ written, write index = .ok written ∧ written.sources = index.sourceNames ∧
      written.names = index.names ∧
      read written.text sources written.names =
        .ok (.ofMappings sources (sortBy Mapping.position (index.mappingsUnder sources))) := by
  obtain ⟨placements, placed, _⟩ := Walk.map_eq_ok.mp valid
  have names := nameTable_eq_names placed
  have writable := writable_of_placements placed sourcesFit (names ▸ namesFit) length
  obtain ⟨groups, written, plain, resolved⟩ := resolveAll_writeLines
    (fun row listed placement member => writable placement (mem_of_mem_rows listed member))
    Cursor.inRange_start
  have numbered : ∀ entry ∈ (rows placements).zipIdx, ∀ placement ∈ entry.1,
      placement.generatedLine = entry.2 := fun _ listed _ member =>
    generatedLine_of_mem_rows listed member
  refine ⟨⟨String.ofList ([';'].intercalate groups), index.sourceNames, nameTable placements⟩,
    ?_, rfl, names, ?_⟩
  · rw [write_eq_rows]
    exact Walk.bind_eq_ok.mpr ⟨placements, placed, Walk.map_eq_ok.mpr ⟨groups, written, rfl⟩⟩
  · rw [read_eq, String.toList_ofList, tokens_intercalate plain, resolved 0 .start numbered rfl,
      map_mapping_flatten_rows placed length]
    rfl

end Mappings
end SourceMap

import SourceMap.Proofs.Mappings.Following
import SourceMap.Proofs.Mappings.TokenCount
import SourceMap.Proofs.Mappings.TokenPlaces
import SourceMap.Proofs.Mappings.WholeIndexes

/-!
# The layout of a written text

A written text has one group for each generated line up to the last one with a
mapping, and nothing where there is no mapping at all. A group is empty exactly if
no mapping is on its line. Otherwise it holds one token for each mapping of the
line, in the order of their generated columns; mappings of one column stay in the
order of the index.

What the writer does is another thing: it collects placements into lines that it
makes when they are needed, numbers names on the way, and sorts at the end. That
this comes to rows which are selections of the placements, sorted by column, is
proved in `Mappings.Collecting`; here the rows are compared with the mappings of
the index and with the tokens of the text. The tokens are followed with the cursor
that the earlier groups leave, so the statement about a group is about the text as
it stands and not about the group by itself.
-/

namespace SourceMap

/-- The generated line of a mapping. -/
def Mapping.generatedLine (mapping : Mapping) : Nat := (ofLex mapping.position).1

/-- The generated column of a mapping. -/
def Mapping.generatedColumn (mapping : Mapping) : Nat := (ofLex mapping.position).2

/-- The mappings on a generated line, by generated column. -/
def OriginIndex.onLine (index : OriginIndex) (line : Nat) : List Mapping :=
  sortBy Mapping.generatedColumn (index.mappings.filter (·.generatedLine = line))

namespace Mappings

variable {sources names : List String}

/-- What a group is that was written after others for the mappings of its line:
it is empty if there are none. Otherwise its tokens, followed from where those
of the earlier groups leave the cursor, stand for just these mappings; and each
has the fields of a segment for its mapping: four or five of them by whether the
mapping has a name, and a first one that does not go back. -/
structure Holds (sources names : List String) (before : List (List Char)) (group : List Char)
    (row : List Mapping) : Prop where
  empty : group = [] ↔ row = []
  follow : group ≠ [] → ∃ earlier cursor last,
    follow sources names .start (tokensFrom 0 before) = .ok (earlier, cursor) ∧
      follow sources names cursor (lineTokens before.length 0 (group.splitOn ',')) =
        .ok (row, last)
  fields : group ≠ [] → List.Forall₂ (fun text mapping =>
    Laid (fieldsOf text) mapping.target.name?.isSome) (group.splitOn ',') row

/-- Following tokens gives as many mappings. -/
theorem length_of_follow {cursor last : Cursor} {tokens : List Token} {mappings : List Mapping}
    (followed : follow sources names cursor tokens = .ok (mappings, last)) :
    mappings.length = tokens.length := by
  induction tokens generalizing cursor mappings with
  | nil =>
    obtain ⟨rfl, _⟩ := Prod.mk.inj (Except.ok.inj followed)
    rfl
  | cons token rest inductionHypothesis =>
    obtain ⟨⟨mapping, next⟩, _, followed⟩ := Walk.bind_eq_ok.mp followed
    obtain ⟨⟨others, reached⟩, further, followed⟩ := Walk.bind_eq_ok.mp followed
    obtain ⟨rfl, rfl⟩ := Prod.mk.inj (Except.ok.inj followed)
    rw [List.length_cons, List.length_cons, inductionHypothesis further]

/-- What parts of tokens stand for is known from what all of them stand for. -/
theorem follow_parts {cursor last : Cursor} {left right : List Token}
    {leftMappings rightMappings : List Mapping}
    (followed : follow sources names cursor (left ++ right) =
      .ok (leftMappings ++ rightMappings, last)) (length : leftMappings.length = left.length) :
    ∃ next, follow sources names cursor left = .ok (leftMappings, next) ∧
      follow sources names next right = .ok (rightMappings, last) := by
  rw [follow_append] at followed
  obtain ⟨⟨here, next⟩, leftFollowed, followed⟩ := Walk.bind_eq_ok.mp followed
  obtain ⟨⟨later, reached⟩, rightFollowed, same⟩ := Walk.map_eq_ok.mp followed
  obtain ⟨joined, rfl⟩ := Prod.mk.inj same
  obtain ⟨rfl, rfl⟩ :=
    List.append_inj joined ((length_of_follow leftFollowed).trans length.symm)
  exact ⟨next, leftFollowed, rightFollowed⟩

namespace GroupFor

variable {group : List Char} {row : List Placement}

/-- Texts for placements can be joined and taken apart again. -/
theorem plainTexts {texts : List (List Char)} (each : List.Forall₂ SpelledFor texts row) :
    PlainTexts texts := by
  induction each with
  | nil => simp [PlainTexts]
  | cons first _ inductionHypothesis =>
    intro text member
    rcases List.mem_cons.mp member with rfl | later
    · exact ⟨first.filled, first.plain⟩
    · exact inductionHypothesis text later

/-- A group is empty exactly if there is no placement on its line. -/
theorem eq_nil_iff (written : GroupFor group row) : group = [] ↔ row = [] := by
  obtain ⟨texts, rfl, each⟩ := written
  cases each with
  | nil => simp
  | cons first _ => simp [intercalate_cons_eq, first.filled]

/-- A group joins one text for each placement. -/
theorem joins (written : GroupFor group row) : Joins group row.length := by
  obtain ⟨texts, rfl, each⟩ := written
  exact ⟨texts, rfl, plainTexts each, each.length_eq⟩

/-- The tokens of a group are as many as the placements. -/
theorem length_groupTokens (written : GroupFor group row) (line : Nat) :
    (groupTokens line group).length = row.length := written.joins.length_groupTokens line

/-- A group that is not empty is made of texts for the placements. -/
theorem forall₂_splitOn (written : GroupFor group row) (filled : group ≠ []) :
    List.Forall₂ SpelledFor (group.splitOn ',') row := by
  obtain ⟨texts, rfl, each⟩ := written
  have inhabited : texts ≠ [] := by
    rintro rfl
    exact filled rfl
  rwa [List.splitOn_intercalate ',' (fun text member inside =>
    ((plainTexts each text member).2 ',' inside).1 rfl) inhabited]

/-- A group that is not empty is not blank either. -/
theorem groupTokens_eq (written : GroupFor group row) (filled : group ≠ []) (line : Nat) :
    groupTokens line group = lineTokens line 0 (group.splitOn ',') := by
  have same := written.forall₂_splitOn filled
  have whole := (plainTexts same).groupTokens_intercalate line
  rwa [List.intercalate_splitOn] at whole

/-- The tokens of a group are read as integers. -/
theorem hasIntegers (written : GroupFor group row) {line : Nat} {token : Token}
    (member : token ∈ groupTokens line group) : token.HasIntegers := by
  by_cases filled : group = []
  · subst filled
    cases member
  rw [written.groupTokens_eq filled] at member
  obtain ⟨⟨text, segment⟩, listed, rfl⟩ := List.mem_map.mp member
  obtain ⟨placement, _, spelled⟩ :=
    Walk.exists_of_forall₂_mem (written.forall₂_splitOn filled) (List.fst_mem_of_mem_zipIdx listed)
  exact fun offset read => ⟨fieldsOf text, Except.ok.inj (read.symm.trans spelled.read)⟩

end GroupFor

/-- The tokens of groups that were written are read as integers. -/
theorem hasIntegers_of_mem_tokensFrom {groups : List (List Char)} {rows : List (List Placement)}
    (written : List.Forall₂ GroupFor groups rows) {start : Nat} {token : Token}
    (member : token ∈ tokensFrom start groups) : token.HasIntegers := by
  obtain ⟨⟨group, line⟩, listed, inside⟩ := List.mem_flatMap.mp member
  obtain ⟨row, _, writtenOne⟩ :=
    Walk.exists_of_forall₂_mem written (List.fst_mem_of_mem_zipIdx listed)
  exact writtenOne.hasIntegers inside

/-- Groups that were written have no line separator in them. -/
theorem not_mem_of_groupFor {groups : List (List Char)} {rows : List (List Placement)}
    (written : List.Forall₂ GroupFor groups rows) : ∀ group ∈ groups, ';' ∉ group :=
  not_mem_of_joins (written.imp fun _ _ => GroupFor.joins)

/-- The tokens of groups are as many as the placements. -/
theorem length_tokensFrom {groups : List (List Char)} {rows : List (List Placement)}
    (written : List.Forall₂ GroupFor groups rows) (start : Nat) :
    (tokensFrom start groups).length = rows.flatten.length :=
  length_tokensFrom_of_joins (written.imp fun _ _ => GroupFor.joins) start

/-- Counting lines from a number on ends there or after the line of a placement. -/
theorem foldl_lineCount_eq (placements : List Placement) (start : Nat) :
    placements.foldl (fun count other => max count (other.generatedLine + 1)) start = start ∨
      ∃ placement ∈ placements,
        placements.foldl (fun count other => max count (other.generatedLine + 1)) start =
          placement.generatedLine + 1 := by
  induction placements generalizing start with
  | nil => exact Or.inl rfl
  | cons first rest inductionHypothesis =>
    rw [List.foldl_cons]
    rcases inductionHypothesis (max start (first.generatedLine + 1)) with
      same | ⟨placement, member, reached⟩
    · rcases max_choice start (first.generatedLine + 1) with left | right
      · exact Or.inl (same.trans left)
      · exact Or.inr ⟨first, List.mem_cons_self, same.trans right⟩
    · exact Or.inr ⟨placement, List.mem_cons_of_mem first member, reached⟩

/-- The lines that are written reach up to the last one with a placement. -/
theorem exists_lineCount_eq {placements : List Placement} (inhabited : placements ≠ []) :
    ∃ placement ∈ placements, lineCount placements = placement.generatedLine + 1 := by
  obtain ⟨first, member⟩ := List.exists_mem_of_ne_nil placements inhabited
  refine (foldl_lineCount_eq placements 0).resolve_left fun nothing => ?_
  have reached := generatedLine_lt_lineCount member
  rw [lineCount, nothing] at reached
  exact Nat.not_lt_zero _ reached

/-- The mapping that a placement stands for has its generated line. -/
theorem generatedLine_mapping (names : List String) (placement : Placement) :
    (placement.mapping names).generatedLine = placement.generatedLine :=
  congrArg (fun position => (ofLex position).1) (placement.position_mapping names)

/-- The mapping that a placement stands for has its generated column. -/
theorem generatedColumn_mapping (names : List String) (placement : Placement) :
    (placement.mapping names).generatedColumn = placement.generatedColumn :=
  congrArg (fun position => (ofLex position).2) (placement.position_mapping names)

/-- The placements of a line stand for the mappings on it. -/
theorem map_mapping_onLine {index : OriginIndex} {placements : List Placement}
    (viewed : placements.map (Placement.mapping index.sourceNames) = index.mappings) (line : Nat) :
    (onLine placements line).map (Placement.mapping index.sourceNames) = index.onLine line := by
  have columns : Mapping.generatedColumn ∘ Placement.mapping index.sourceNames =
      Placement.generatedColumn := funext (generatedColumn_mapping index.sourceNames)
  have lines : (fun mapping : Mapping => decide (mapping.generatedLine = line)) ∘
      Placement.mapping index.sourceNames = fun placement => placement.generatedLine == line :=
    funext fun placement =>
      congrArg (fun number => decide (number = line))
        (generatedLine_mapping index.sourceNames placement)
  rw [OriginIndex.onLine, ← viewed, List.filter_map, ← map_sortBy, columns, lines]
  rfl

/-- The row of a line is that of its placements. -/
theorem rows_eq_append_cons {placements row : List Placement}
    {earlier later : List (List Placement)} (split : rows placements = earlier ++ row :: later) :
    row = onLine placements earlier.length := by
  have found : (rows placements)[earlier.length]? = some row := by
    rw [split]
    simp
  rw [rows, List.getElem?_map] at found
  obtain ⟨line, here, rfl⟩ := Option.map_eq_some_iff.mp found
  obtain ⟨_, rfl⟩ := List.getElem?_eq_some_iff.mp here
  simp

/-- A group that was written holds the mappings of its line. It is empty exactly
where the line has none; otherwise its tokens, after those of the groups before
it, resolve to the mappings of the line, and each part is laid out as its mapping
says.

The tokens of the whole text resolve to the mappings of all lines. Cutting both at
the group gives its own tokens and its own mappings, as there are as many of one
as of the other on every line. -/
theorem holds_of_written {index : OriginIndex} {placements : List Placement}
    {groups before after : List (List Char)} {group : List Char}
    (viewed : placements.map (Placement.mapping index.sourceNames) = index.mappings)
    (written : List.Forall₂ GroupFor groups (rows placements))
    (resolved : resolveAll sources names .start (tokensFrom 0 groups) =
      .ok ((rows placements).flatten.map (Placement.mapping index.sourceNames)))
    (split : groups = before ++ group :: after) :
    Holds sources names before group (index.onLine before.length) := by
  subst split
  obtain ⟨earlier, row, later, rowsSplit, writtenBefore, writtenHere⟩ :=
    Walk.exists_of_forall₂_append_cons written
  have isRow : row.map (Placement.mapping index.sourceNames) = index.onLine before.length := by
    rw [rows_eq_append_cons rowsSplit, ← writtenBefore.length_eq, map_mapping_onLine viewed]
  rw [← isRow]
  constructor
  · rw [List.map_eq_nil_iff, writtenHere.eq_nil_iff]
  · intro filled
    rw [resolveAll_eq, Walk.map_eq_ok] at resolved
    obtain ⟨⟨mappings, last⟩, followed, rfl⟩ := resolved
    rw [tokensFrom_append, Nat.zero_add, tokensFrom_cons, rowsSplit, List.flatten_append,
      List.flatten_cons, List.map_append, List.map_append] at followed
    obtain ⟨cursor, first, rest⟩ := follow_parts followed (by
      rw [List.length_map, length_tokensFrom writtenBefore])
    obtain ⟨next, here, _⟩ := follow_parts rest (by
      rw [List.length_map, writtenHere.length_groupTokens])
    rw [writtenHere.groupTokens_eq filled] at here
    exact ⟨_, cursor, next, first, here⟩
  · intro filled
    rw [List.forall₂_map_right_iff]
    refine (writtenHere.forall₂_splitOn filled).imp fun text placement spelled => ?_
    have name : (placement.mapping index.sourceNames).target.name? = placement.name :=
      placement.name?_target
    rw [name]
    exact spelled.laid

/-- An index that passes the check has all of its mappings at generated
positions that can be written. -/
theorem target_eq_placed {index : OriginIndex} {placements : List Placement}
    (viewed : placements.map (Placement.mapping index.sourceNames) = index.mappings)
    {mapping : Mapping} (member : mapping ∈ index.mappings) :
    mapping.target = .placed (.ofNat mapping.generatedLine) (.ofNat mapping.generatedColumn)
      mapping.target.name? := by
  rw [← viewed] at member
  obtain ⟨placement, _, rfl⟩ := List.mem_map.mp member
  rw [Mapping.generatedLine, Mapping.generatedColumn, Placement.position_mapping]
  have name : (placement.mapping index.sourceNames).target.name? = placement.name :=
    placement.name?_target
  rw [name]
  rfl

/-- The groups that are written for an index resolve to the mappings of its
placements, line by line. -/
theorem resolveAll_spelled {index : OriginIndex} {placements : List Placement}
    {groups : List (List Char)} (placed : index.placements = .ok placements)
    (sourcesFit : index.sourceNames.length ≤ Coordinate.greatest + 1)
    (namesFit : index.names.length ≤ Coordinate.greatest + 1)
    (spelled : (offsets (segmentRows placements) .start).mapM spellLine = .ok groups) :
    resolveAll index.sourceNames (nameTable placements) .start (tokensFrom 0 groups) =
      .ok ((rows placements).flatten.map (Placement.mapping index.sourceNames)) := by
  rw [← nameTable_eq_names placed] at namesFit
  have writable := writable_of_placements placed sourcesFit namesFit rfl
  obtain ⟨same, wrote, _, resolved⟩ := resolveAll_writeLines
    (fun row listed placement member => writable placement (mem_of_mem_rows listed member))
    Cursor.inRange_start
  rw [writeLines_eq] at wrote
  obtain rfl := Except.ok.inj (spelled.symm.trans wrote)
  exact resolved 0 .start (fun _ listed _ member => generatedLine_of_mem_rows listed member) rfl

/-- How an index that passes the check is laid out. Without mappings the text is
empty. Otherwise it has one group for each generated line up to the greatest of
the mappings, and each of the groups holds the mappings of its line in the order
of their generated columns. So there are as many tokens as mappings.

The tables must fit, as their places are written too. The index need not have
been built: what is written depends on its mappings in the order of their
origins, and nothing else about it is used.

Proof: the placements stand for the mappings, and the collected lines are their
rows. Each row is spelled as a group that is taken apart into its tokens, and
these resolve to the mappings of the row, since reading goes through them with
the cursor of writing. -/
theorem write_layout {index : OriginIndex} (valid : index.check = .ok ())
    (sourcesFit : index.sourceNames.length ≤ Coordinate.greatest + 1)
    (namesFit : index.names.length ≤ Coordinate.greatest + 1) :
    ∃ written, write index = .ok written ∧
      (∀ mapping ∈ index.mappings, mapping.target =
        .placed (.ofNat mapping.generatedLine) (.ofNat mapping.generatedColumn)
          mapping.target.name?) ∧
      (tokens written.text.toList).length = index.count ∧
      (index.mappings = [] → written.text = "") ∧
      (index.mappings ≠ [] →
        (∀ mapping ∈ index.mappings,
          mapping.generatedLine < (written.text.toList.splitOn ';').length) ∧
        (∃ mapping ∈ index.mappings,
          (written.text.toList.splitOn ';').length = mapping.generatedLine + 1) ∧
        ∀ before group after, written.text.toList.splitOn ';' = before ++ group :: after →
          Holds written.sources written.names before group (index.onLine before.length)) := by
  obtain ⟨placements, placed, _⟩ := Walk.map_eq_ok.mp valid
  have viewed := (OriginIndex.placements_eq_ok placed rfl).1
  rw [OriginIndex.mappingsUnder_sourceNames] at viewed
  obtain ⟨groups, spelled, wrote, _, written⟩ := exists_write_eq_ok placed sourcesFit namesFit
  have plain := not_mem_of_groupFor written
  have resolved := resolveAll_spelled placed sourcesFit namesFit spelled
  refine ⟨⟨String.ofList ([';'].intercalate groups), index.sourceNames, nameTable placements⟩,
    wrote, fun mapping => target_eq_placed viewed, ?_, ?_, ?_⟩
  · rw [String.toList_ofList, tokens_intercalate plain, length_tokensFrom written, flatten_rows,
      length_sortBy, OriginIndex.count_eq, ← viewed, List.length_map]
  · intro nothing
    obtain rfl : placements = [] := by simpa [nothing] using viewed
    obtain rfl : groups = [] := List.forall₂_nil_right_iff.mp written
    rfl
  · intro inhabited
    have filled : placements ≠ [] := by
      rintro rfl
      exact inhabited viewed.symm
    have count : groups.length = lineCount placements := by
      rw [written.length_eq, rows, List.length_map, List.length_range]
    obtain ⟨last, lastMember, reached⟩ := exists_lineCount_eq filled
    have isGroups : (String.ofList ([';'].intercalate groups)).toList.splitOn ';' = groups := by
      rw [String.toList_ofList, List.splitOn_intercalate ';' plain]
      rintro rfl
      simp [reached] at count
    rw [isGroups, count, ← viewed]
    refine ⟨?_, ?_, fun before group after => holds_of_written viewed written resolved⟩
    · intro mapping member
      obtain ⟨placement, listed, rfl⟩ := List.mem_map.mp member
      rw [generatedLine_mapping]
      exact generatedLine_lt_lineCount listed
    · exact ⟨_, List.mem_map_of_mem lastMember, by rw [generatedLine_mapping, reached]⟩

/-- Three targets of one origin, with a generated line between theirs on which
there is none. -/
def gappedIndex : OriginIndex :=
  (OriginIndex.empty ["a.ts"]).append "a.ts" 3 1
    [.placed 2 7 (some "x"), .placed 0 9 none, .placed 2 7 none]

/-- The line between is an empty group, and the last line holds two tokens. -/
theorem write_layout_gappedIndex :
    ∃ written first last, write gappedIndex = .ok written ∧
      written.text.toList.splitOn ';' = [first, [], last] ∧
      Holds written.sources written.names [first, []] last
        [⟨"a.ts", 3, 1, .placed 2 7 (some "x")⟩, ⟨"a.ts", 3, 1, .placed 2 7 none⟩] ∧
      (tokens written.text.toList).length = 3 := by
  have valid : gappedIndex.check = .ok () := by cbv
  obtain ⟨written, wrote, _, count, _, layout⟩ :=
    write_layout valid (by decide +kernel) (by decide +kernel)
  have listed : gappedIndex.mappings = [⟨"a.ts", 3, 1, .placed 2 7 (some "x")⟩,
      ⟨"a.ts", 3, 1, .placed 0 9 none⟩, ⟨"a.ts", 3, 1, .placed 2 7 none⟩] := by cbv
  obtain ⟨below, ⟨greatest, member, reached⟩, holds⟩ := layout (by simp [listed])
  have lines : (written.text.toList.splitOn ';').length = 3 := by
    rw [listed] at below member
    have second : 2 < (written.text.toList.splitOn ';').length := below _ List.mem_cons_self
    simp only [List.mem_cons, List.not_mem_nil, or_false] at member
    rcases member with rfl | rfl | rfl
    · exact reached
    · exact absurd (reached ▸ second) (by decide)
    · exact reached
  obtain ⟨first, middle, last, split⟩ := List.length_eq_three.mp lines
  have between : gappedIndex.onLine 1 = [] := by cbv
  have ended : gappedIndex.onLine 2 = [⟨"a.ts", 3, 1, .placed 2 7 (some "x")⟩,
      ⟨"a.ts", 3, 1, .placed 2 7 none⟩] := by cbv
  obtain rfl : middle = [] := (holds [first] middle [last] split).empty.mpr between
  exact ⟨written, first, last, wrote, split, ended ▸ holds [first, []] last [] split,
    count.trans (by cbv)⟩

end Mappings
end SourceMap

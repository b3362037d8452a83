import SourceMap.Proofs.Mappings.Following
import SourceMap.Proofs.Mappings.RunningTotals
import SourceMap.Proofs.Vlq.Runs

/-!
# What is accepted, and what is blamed

A token is accepted if it spells four values or five and the running totals at it
are sound: no coordinate is negative, and the indexes are places of the tables.
Otherwise it is blamed for the first of these that does not hold. A text is read
exactly if all of its tokens are accepted; else its fault is the one that the
first token that is not accepted is blamed for. What stands before that token can
be read, and what comes after it makes no difference.

Neither notion refers to the reader. They speak of what a token spells and of sums
over the tokens before it, and the cases of `Blamed` are in the order in which a
reader would look; each excludes the earlier ones, so a token is blamed for one
fault only. The sums are rounded ones, so the grammar holds for texts of any
length. Long values are excluded, because one of them makes a total undefined,
which passes every check.
-/

namespace SourceMap

/-- A cursor no coordinate of which is negative. -/
structure Cursor.NotNegative (cursor : Cursor) : Prop where
  generatedColumn : cursor.generatedColumn.isNegative = false
  originalLine : cursor.originalLine.isNegative = false
  originalColumn : cursor.originalColumn.isNegative = false

namespace Mappings

/-- A token with the fields of a segment: it spells four values or five. -/
structure Fielded (token : Token) : Prop where
  spells : Vlq.Spells token.text (fieldsOf token.text)
  count : (fieldsOf token.text).length = 4 ∨ (fieldsOf token.text).length = 5

/-- A token that is accepted after others. -/
structure Accepted (sources names : List String) (before : List Token) (token : Token) :
    Prop where
  fielded : Fielded token
  notNegative : (token.standing before).NotNegative
  source : (token.standing before).sourceIndex.IsPlace sources.length
  name : (fieldsOf token.text).length = 5 →
    (token.standing before).nameIndex.IsPlace names.length

/-- What a token is blamed for after others, in the order in which this is looked
at: its digits, the number of its fields, then the sums of the generated column
and of the original place, the index of the source and that of the name. Each case
but the first supposes that the earlier ones do not apply, so a token has one
fault at most. -/
inductive Blamed (sources names : List String) (before : List Token) (token : Token) :
    Fault → Prop
  | run {defect : VlqDefect} :
      (¬∃ fields, Vlq.Spells token.text fields) → Vlq.readRun token.text = .error defect →
      Blamed sources names before token (.malformedVlq defect (some token.location))
  | fieldCount {fields : List Int} :
      Vlq.Spells token.text fields → ¬(fields.length = 4 ∨ fields.length = 5) →
      Blamed sources names before token
        (.malformedSegment (.fieldCount fields.length) token.location)
  | generatedColumn :
      Fielded token → (token.standing before).generatedColumn.isNegative = true →
      Blamed sources names before token
        (.malformedSegment (.negativeGeneratedColumn (token.standing before).generatedColumn)
          token.location)
  | originalLine :
      Fielded token → (token.standing before).generatedColumn.isNegative = false →
      (token.standing before).originalLine.isNegative = true →
      Blamed sources names before token
        (.malformedSegment (.negativeOriginalLine (token.standing before).originalLine)
          token.location)
  | originalColumn :
      Fielded token → (token.standing before).generatedColumn.isNegative = false →
      (token.standing before).originalLine.isNegative = false →
      (token.standing before).originalColumn.isNegative = true →
      Blamed sources names before token
        (.malformedSegment (.negativeOriginalColumn (token.standing before).originalColumn)
          token.location)
  | source :
      Fielded token → (token.standing before).NotNegative →
      ¬(token.standing before).sourceIndex.IsPlace sources.length →
      Blamed sources names before token
        (.indexOutOfRange .sources (token.standing before).sourceIndex sources.length
          token.location)
  | name :
      Fielded token → (token.standing before).NotNegative →
      (token.standing before).sourceIndex.IsPlace sources.length →
      (fieldsOf token.text).length = 5 →
      ¬(token.standing before).nameIndex.IsPlace names.length →
      Blamed sources names before token
        (.indexOutOfRange .names (token.standing before).nameIndex names.length token.location)

/-- The fields of a text without long values are what it spells. -/
theorem fieldsOf_of_spells {text : List Char} {fields : List Int} (spells : Vlq.Spells text fields)
    (short : ¬Vlq.HasLongValue text) : fieldsOf text = fields :=
  fieldsOf_of_readRun ((Vlq.readRun_eq_ok_iff short).mpr ⟨fields, spells, rfl⟩)

/-- A coordinate that is not negative passes. -/
theorem refuseNegative_of_not_negative {coordinate : Number}
    (notNegative : coordinate.isNegative = false) (defect : Number → SegmentDefect)
    (location : Location) : Segment.refuseNegative defect coordinate location = .ok () := by
  simp [Segment.refuseNegative, notNegative]

/-- A coordinate that is negative is refused. -/
theorem refuseNegative_of_negative {coordinate : Number}
    (negative : coordinate.isNegative = true) (defect : Number → SegmentDefect)
    (location : Location) :
    Segment.refuseNegative defect coordinate location =
      .error (.malformedSegment (defect coordinate) location) := by
  simp [Segment.refuseNegative, negative]

/-- An entry is found at every place. -/
theorem exists_lookUp_eq_ok {α : Type} {index : Number} {entries : List α}
    (whole : index.IsWhole) (place : index.IsPlace entries.length) (table : Table)
    (location : Location) :
    ∃ entry, Segment.lookUp table entries index location = .ok (some entry) := by
  obtain ⟨entry, found⟩ :=
    Option.isSome_iff_exists.mp ((isSome_entryAt?_iff whole entries).mpr place)
  exact ⟨entry, lookUp_eq_ok.mpr ⟨whole.isOutside_eq_false_iff.mpr place, found⟩⟩

/-- A look-up elsewhere is refused. -/
theorem lookUp_eq_error {α : Type} {index : Number} {entries : List α} (whole : index.IsWhole)
    (elsewhere : ¬index.IsPlace entries.length) (table : Table) (location : Location) :
    Segment.lookUp table entries index location =
      .error (.indexOutOfRange table index entries.length location) := by
  rw [← whole.isOutside_eq_false_iff, Bool.not_eq_false] at elsewhere
  rw [Segment.lookUp, if_pos elsewhere]

/-- A segment of neither four nor five fields is refused. -/
theorem advance_eq_error {fields : List Int} (count : ¬(fields.length = 4 ∨ fields.length = 5))
    (cursor : Cursor) (location : Location) :
    cursor.advance (fields.map .ofInt) location =
      .error (.malformedSegment (.fieldCount fields.length) location) := by
  rcases fields with
    _ | ⟨column, _ | ⟨source, _ | ⟨originalLine, _ | ⟨place, _ | ⟨name, _ | ⟨more, rest⟩⟩⟩⟩⟩⟩
  case cons.cons.cons.cons.nil => simp at count
  case cons.cons.cons.cons.cons.nil => simp at count
  all_goals simp [Cursor.advance]

section Token

variable {sources names : List String} {before : List Token} {token : Token} {cursor : Cursor}
  {fault : Fault}

/-- A token is accepted or blamed. This is where the totals have to be whole: a
number that is neither negative nor outside a table is then at a place of it.

The cases are tried in the order of `Blamed`; what they rule out on the way is
what it takes for the token to be accepted. -/
theorem accepted_or_blamed (sources names : List String) (before : List Token)
    (short : ¬Vlq.HasLongValue token.text) :
    Accepted sources names before token ∨ ∃ fault, Blamed sources names before token fault := by
  by_cases spelled : ∃ fields, Vlq.Spells token.text fields
  case neg =>
    cases reading : Vlq.readRun token.text with
    | error defect => exact Or.inr ⟨_, .run spelled reading⟩
    | ok values =>
      obtain ⟨fields, spells, _⟩ := (Vlq.readRun_eq_ok_iff short).mp reading
      exact absurd ⟨fields, spells⟩ spelled
  obtain ⟨fields, spells⟩ := spelled
  obtain rfl := fieldsOf_of_spells spells short
  by_cases count : (fieldsOf token.text).length = 4 ∨ (fieldsOf token.text).length = 5
  case neg => exact Or.inr ⟨_, .fieldCount spells count⟩
  have fielded : Fielded token := ⟨spells, count⟩
  cases column : (token.standing before).generatedColumn.isNegative with
  | true => exact Or.inr ⟨_, .generatedColumn fielded column⟩
  | false =>
  cases line : (token.standing before).originalLine.isNegative with
  | true => exact Or.inr ⟨_, .originalLine fielded column line⟩
  | false =>
  cases place : (token.standing before).originalColumn.isNegative with
  | true => exact Or.inr ⟨_, .originalColumn fielded column line place⟩
  | false =>
  have notNegative : (token.standing before).NotNegative := ⟨column, line, place⟩
  by_cases source : (token.standing before).sourceIndex.IsPlace sources.length
  case neg => exact Or.inr ⟨_, .source fielded notNegative source⟩
  by_cases name : (fieldsOf token.text).length = 5 →
      (token.standing before).nameIndex.IsPlace names.length
  case neg =>
    obtain ⟨five, outside⟩ := Classical.not_imp.mp name
    exact Or.inr ⟨_, .name fielded notNegative source five outside⟩
  exact Or.inl ⟨fielded, notNegative, source, name⟩

/-- A token with the fields of a segment resolves as the segment that its
running totals are. -/
theorem Fielded.resolve_eq (fielded : Fielded token) (short : ¬Vlq.HasLongValue token.text)
    (start : token.startFrom cursor = standing (before.map Token.wire) token.line) :
    token.resolve sources names cursor =
      (((token.standing before).segment ((fieldsOf token.text).length = 5)).resolve sources names
        token.location).map fun resolved =>
          (⟨resolved.source, resolved.originalLine, resolved.originalColumn,
            .placed (.ofNat token.line) resolved.generatedColumn resolved.name⟩,
            token.standing before) := by
  have read : Vlq.readRun token.text = .ok ((fieldsOf token.text).map .ofInt) :=
    (Vlq.readRun_eq_ok_iff short).mpr ⟨_, fielded.spells, rfl⟩
  have advanced := advance_standing fielded.count (before.map Token.wire) token.line token.location
  have whole : before.map Token.wire ++ [⟨token.line, fieldsOf token.text⟩] =
      (before ++ [token]).map Token.wire := by
    rw [List.map_append]
    rfl
  rw [whole] at advanced
  rw [Token.resolve, read, start]
  change Except.bind (Except.bind (Cursor.advance _ _ _) _) _ = _
  rw [advanced]
  change Except.bind (Except.bind (Segment.resolve _ sources names _) _) _ =
    Except.map _ (Segment.resolve _ sources names _)
  rw [Token.standing]
  cases Segment.resolve _ sources names _ <;> rfl

/-- Where no coordinate is negative, resolving a segment is looking up its
source and then its name, and only then asking for a source that is missing. So
a name index outside its table is blamed even where the source is missing. -/
theorem resolve_segment_eq {standing : Cursor} (notNegative : standing.NotNegative)
    (named : Bool) (location : Location) :
    (standing.segment named).resolve sources names location =
      Segment.lookUp .sources sources standing.sourceIndex location >>= fun found =>
        Segment.lookUpName names (standing.segment named).nameIndex location >>= fun name =>
          found.elim SourceKey.missing .ok >>= fun source =>
            .ok ⟨standing.generatedColumn, source, standing.originalLine, standing.originalColumn,
              name⟩ := by
  have column := refuseNegative_of_not_negative notNegative.generatedColumn
    .negativeGeneratedColumn location
  have line := refuseNegative_of_not_negative notNegative.originalLine
    .negativeOriginalLine location
  have place := refuseNegative_of_not_negative notNegative.originalColumn
    .negativeOriginalColumn location
  simp only [Segment.resolve, Cursor.segment, column, line, place]
  rfl

/-- A segment resolves where no coordinate is negative and its indexes are
places of the tables. -/
theorem exists_resolve_segment_eq_ok {standing : Cursor} {named : Bool}
    (notNegative : standing.NotNegative) (sourceWhole : standing.sourceIndex.IsWhole)
    (source : standing.sourceIndex.IsPlace sources.length) (nameWhole : standing.nameIndex.IsWhole)
    (name : named = true → standing.nameIndex.IsPlace names.length) (location : Location) :
    ∃ resolved, (standing.segment named).resolve sources names location = .ok resolved := by
  obtain ⟨source, sourceFound⟩ := exists_lookUp_eq_ok sourceWhole source .sources location
  obtain ⟨name, nameFound⟩ : ∃ name, Segment.lookUpName names (standing.segment named).nameIndex
      location = .ok name := by
    cases named with
    | false => exact ⟨none, rfl⟩
    | true =>
      obtain ⟨name, found⟩ := exists_lookUp_eq_ok nameWhole (name rfl) .names location
      exact ⟨some name, found⟩
  rw [resolve_segment_eq notNegative]
  exact ⟨_, Walk.bind_eq_ok.mpr ⟨source, sourceFound, Walk.bind_eq_ok.mpr ⟨name, nameFound, rfl⟩⟩⟩

/-- A token that is accepted resolves, and leaves the cursor at its running
totals. -/
theorem Accepted.resolve (accepted : Accepted sources names before token)
    (short : ¬Vlq.HasLongValue token.text)
    (start : token.startFrom cursor = standing (before.map Token.wire) token.line) :
    ∃ mapping, token.resolve sources names cursor = .ok (mapping, token.standing before) := by
  obtain ⟨resolved, looked⟩ := exists_resolve_segment_eq_ok accepted.notNegative
    (isWhole_runningTotal 1 _) accepted.source (isWhole_runningTotal 4 _)
    (fun five => accepted.name (of_decide_eq_true five)) token.location
  rw [accepted.fielded.resolve_eq short start]
  exact ⟨_, Walk.map_eq_ok.mpr ⟨resolved, looked, rfl⟩⟩

/-- A token that is blamed does not resolve, but has the fault that it is blamed
for. The cursor has to stand where the tokens before led it, and the token may
have no long value: behind one the sums are undefined and nothing is negative.

Each case walks through the checks before the one that fails and shows that they
pass, which is what the case says besides its own defect. -/
theorem Blamed.resolve (blamed : Blamed sources names before token fault)
    (short : ¬Vlq.HasLongValue token.text)
    (start : token.startFrom cursor = standing (before.map Token.wire) token.line) :
    token.resolve sources names cursor = .error fault := by
  cases blamed with
  | run malformed found =>
    refine Walk.bind_eq_error.mpr (Or.inl ?_)
    rw [found]
    rfl
  | @fieldCount fields spells count =>
    have read : Vlq.readRun token.text = .ok (fields.map .ofInt) :=
      (Vlq.readRun_eq_ok_iff short).mpr ⟨fields, spells, rfl⟩
    have stepped : (token.startFrom cursor).step (fields.map .ofInt) sources names token.location =
        .error (.malformedSegment (.fieldCount fields.length) token.location) :=
      Walk.bind_eq_error.mpr (Or.inl (advance_eq_error count _ _))
    rw [Token.resolve, read]
    exact Walk.bind_eq_error.mpr (Or.inr ⟨_, rfl, Walk.bind_eq_error.mpr (Or.inl stepped)⟩)
  | generatedColumn fielded negative =>
    rw [fielded.resolve_eq short start, Walk.map_eq_error]
    exact Walk.bind_eq_error.mpr (Or.inl (refuseNegative_of_negative negative _ _))
  | originalLine fielded column negative =>
    rw [fielded.resolve_eq short start, Walk.map_eq_error]
    exact Walk.bind_eq_error.mpr (Or.inr ⟨(), refuseNegative_of_not_negative column _ _,
      Walk.bind_eq_error.mpr (Or.inl (refuseNegative_of_negative negative _ _))⟩)
  | originalColumn fielded column line negative =>
    rw [fielded.resolve_eq short start, Walk.map_eq_error]
    exact Walk.bind_eq_error.mpr (Or.inr ⟨(), refuseNegative_of_not_negative column _ _,
      Walk.bind_eq_error.mpr (Or.inr ⟨(), refuseNegative_of_not_negative line _ _,
        Walk.bind_eq_error.mpr (Or.inl (refuseNegative_of_negative negative _ _))⟩)⟩)
  | source fielded notNegative outside =>
    rw [fielded.resolve_eq short start, Walk.map_eq_error, resolve_segment_eq notNegative]
    have whole : (token.standing before).sourceIndex.IsWhole := isWhole_runningTotal 1 _
    exact Walk.bind_eq_error.mpr (Or.inl (lookUp_eq_error whole outside _ _))
  | name fielded notNegative source five outside =>
    have sourceWhole : (token.standing before).sourceIndex.IsWhole := isWhole_runningTotal 1 _
    have nameWhole : (token.standing before).nameIndex.IsWhole := isWhole_runningTotal 4 _
    obtain ⟨entry, found⟩ := exists_lookUp_eq_ok sourceWhole source .sources token.location
    rw [fielded.resolve_eq short start, Walk.map_eq_error, resolve_segment_eq notNegative]
    simp only [Cursor.segment, five, decide_true, if_true, Segment.lookUpName]
    refine Walk.bind_eq_error.mpr (Or.inr ⟨entry, found, Walk.bind_eq_error.mpr (Or.inl ?_)⟩)
    exact lookUp_eq_error nameWhole outside _ _

end Token

section Run

variable {sources names : List String} {before : List Token} {token : Token} {fault : Fault}

/-- Tokens that are accepted are followed, and what can come after them starts
from their running totals. -/
theorem exists_follow_eq_ok {tokens : List Token}
    (accepted : Throughout (Accepted sources names) tokens) (follows : Throughout Follows tokens)
    (short : ∀ token ∈ tokens, ¬Vlq.HasLongValue token.text) :
    ∃ mappings cursor, follow sources names .start tokens = .ok (mappings, cursor) ∧
      ∀ next, Follows tokens next →
        next.startFrom cursor = standing (tokens.map Token.wire) next.line := by
  induction tokens using List.reverseRecOn with
  | nil => exact ⟨[], .start, rfl, fun next => startFrom_start⟩
  | append_singleton earlier last inductionHypothesis =>
    obtain ⟨acceptedEarlier, acceptedLast⟩ := throughout_concat.mp accepted
    obtain ⟨followsEarlier, followsLast⟩ := throughout_concat.mp follows
    obtain ⟨mappings, cursor, followed, start⟩ := inductionHypothesis acceptedEarlier followsEarlier
      fun token member => short token (List.mem_append_left [last] member)
    obtain ⟨mapping, resolved⟩ := acceptedLast.resolve (short last (by simp))
      (start last followsLast)
    exact ⟨mappings ++ [mapping], last.standing earlier, follow_concat followed resolved,
      fun next => startFrom_standing⟩

/-- Tokens have the fault that the first of them that is not accepted is blamed
for. -/
theorem Blamed.follow_eq_error (blamed : Blamed sources names before token fault)
    (accepted : Throughout (Accepted sources names) before) {after : List Token}
    (follows : Throughout Follows (before ++ token :: after))
    (short : ∀ other ∈ before ++ [token], ¬Vlq.HasLongValue other.text) :
    follow sources names .start (before ++ token :: after) = .error fault := by
  obtain ⟨mappings, cursor, followed, start⟩ := exists_follow_eq_ok accepted follows.of_append
    fun other member => short other (List.mem_append_left [token] member)
  have failed := blamed.resolve (short token (by simp)) (start token (follows _ _ _ rfl))
  exact Mappings.follow_eq_error followed failed after

/-- A text whose tokens are accepted is read. -/
theorem exists_read_eq_ok {text : String}
    (accepted : Throughout (Accepted sources names) (tokens text.toList))
    (short : ∀ token ∈ tokens text.toList, ¬Vlq.HasLongValue token.text) :
    ∃ index, read text sources names = .ok index := by
  obtain ⟨mappings, cursor, followed, _⟩ :=
    exists_follow_eq_ok accepted (throughout_follows_tokens text.toList) short
  exact exists_read_eq_ok_iff.mpr ⟨mappings, cursor, followed⟩

/-- A text has the fault that its first token that is not accepted is blamed
for. -/
theorem Blamed.read_eq_error (blamed : Blamed sources names before token fault)
    (accepted : Throughout (Accepted sources names) before) {text : String} {after : List Token}
    (split : tokens text.toList = before ++ token :: after)
    (short : ∀ other ∈ before ++ [token], ¬Vlq.HasLongValue other.text) :
    read text sources names = .error fault := by
  rw [read_eq_error_iff, split]
  exact blamed.follow_eq_error accepted (split ▸ throughout_follows_tokens text.toList) short

/-- Where no token has a long value neither a token nor those before it have
one. -/
theorem short_of_split {tokens after : List Token}
    (short : ∀ token ∈ tokens, ¬Vlq.HasLongValue token.text)
    (split : tokens = before ++ token :: after) :
    ∀ other ∈ before ++ [token], ¬Vlq.HasLongValue other.text := by
  intro other member
  refine short other ?_
  rw [split, List.append_cons]
  exact List.mem_append_left after member

/-- Tokens are accepted, or the first of them that is not is blamed. -/
theorem accepted_or_blamed_first {tokens : List Token} (sources names : List String)
    (short : ∀ token ∈ tokens, ¬Vlq.HasLongValue token.text) :
    Throughout (Accepted sources names) tokens ∨
      ∃ before token after fault, tokens = before ++ token :: after ∧
        Throughout (Accepted sources names) before ∧ Blamed sources names before token fault := by
  rcases throughout_or_first (Accepted sources names) tokens with
    all | ⟨before, token, after, rfl, first, fails⟩
  · exact Or.inl all
  · obtain ⟨fault, blamed⟩ :=
      (accepted_or_blamed sources names before (short token (by simp))).resolve_left fails
    exact Or.inr ⟨before, token, after, fault, rfl, first, blamed⟩

/-- A text is read exactly if all of its tokens are accepted. -/
theorem exists_read_iff_accepted {text : String}
    (short : ∀ token ∈ tokens text.toList, ¬Vlq.HasLongValue token.text) :
    (∃ index, read text sources names = .ok index) ↔
      Throughout (Accepted sources names) (tokens text.toList) := by
  constructor
  · rintro ⟨index, success⟩
    refine (accepted_or_blamed_first sources names short).resolve_right ?_
    rintro ⟨before, token, after, fault, split, accepted, blamed⟩
    have failed := blamed.read_eq_error accepted split (short_of_split short split)
    cases success.symm.trans failed
  · intro accepted
    exact exists_read_eq_ok accepted short

/-- The fault of a text is the one that its first token that is not accepted is
blamed for. -/
theorem read_eq_error_iff_blamed {text : String}
    (short : ∀ token ∈ tokens text.toList, ¬Vlq.HasLongValue token.text) :
    read text sources names = .error fault ↔
      ∃ before token after, tokens text.toList = before ++ token :: after ∧
        Throughout (Accepted sources names) before ∧ Blamed sources names before token fault := by
  constructor
  · intro failed
    rcases accepted_or_blamed_first sources names short with
      accepted | ⟨before, token, after, other, split, accepted, blamed⟩
    · obtain ⟨index, success⟩ := exists_read_eq_ok accepted short
      cases success.symm.trans failed
    · have found := blamed.read_eq_error accepted split (short_of_split short split)
      obtain rfl := Except.error.inj (found.symm.trans failed)
      exact ⟨before, token, after, split, accepted, blamed⟩
  · rintro ⟨before, token, after, split, accepted, blamed⟩
    exact blamed.read_eq_error accepted split (short_of_split short split)

/-- Without long values no source is missing from its table. -/
theorem read_ne_missingEntry {text : String} (short : ¬Vlq.HasLongValue text.toList) :
    read text sources names ≠ .error .missingEntry := by
  intro failed
  obtain ⟨before, token, after, _, _, blamed⟩ := (read_eq_error_iff_blamed fun token member =>
    not_hasLongValue_of_mem_tokens short member).mp failed
  cases blamed

/-- The text of a token that is accepted is not blank. -/
theorem not_blank_of_accepted {tokens : List Token}
    (accepted : Throughout (Accepted sources names) tokens) (member : token ∈ tokens) :
    Blank.isBlankText token.text = false := by
  obtain ⟨before, after, split⟩ := List.append_of_mem member
  exact (accepted before token after split).fielded.spells.not_blank

/-- Up to a token before which all are accepted the text can be cut so that
these are left. -/
theorem Stands.tokens_assemble_of_accepted {groups texts : List (List Char)}
    (stands : Stands groups texts before token)
    (accepted : Throughout (Accepted sources names) before) :
    tokens (assemble groups texts) = before := by
  refine stands.tokens_assemble fun text listed => ?_
  obtain ⟨earlier, later, rfl⟩ := List.append_of_mem listed
  have member : Token.mk groups.length earlier.length text ∈ before := by
    rw [stands.before, lineTokens_append, lineTokens_cons, Nat.zero_add]
    simp
  exact not_blank_of_accepted accepted member

/-- What stands before a token that is blamed is read, and what comes after it
makes no difference. -/
theorem Blamed.exists_cut (blamed : Blamed sources names before token fault)
    (accepted : Throughout (Accepted sources names) before) {text : List Char}
    {after : List Token} (split : tokens text = before ++ token :: after)
    (short : ∀ other ∈ before ++ [token], ¬Vlq.HasLongValue other.text) :
    ∃ cut tail, text = cut ++ joint token ++ token.text ++ tail ∧ tokens cut = before ∧
      (∃ index, read (String.ofList cut) sources names = .ok index) ∧ Delimits token tail ∧
      ∀ other, Delimits token other →
        read (String.ofList (cut ++ joint token ++ token.text ++ other)) sources names =
          .error fault := by
  obtain ⟨groups, texts, tail, stands, whole, delimits⟩ := exists_stands split
  have tokensCut := stands.tokens_assemble_of_accepted accepted
  refine ⟨assemble groups texts, tail, ?_, tokensCut, ?_, delimits, ?_⟩
  · rw [whole, stands.assemble_concat]
  · refine exists_read_eq_ok (by simpa [tokensCut] using accepted) fun earlier member => ?_
    rw [String.toList_ofList, tokensCut] at member
    exact short earlier (List.mem_append_left [token] member)
  · intro other delimitsOther
    obtain ⟨later, again⟩ := stands.tokens_append delimitsOther
    rw [stands.assemble_concat] at again
    exact blamed.read_eq_error accepted (by simpa using again) short

end Run

/-- Reading accepts its grammar and blames the first token that is not in it. A
text without long values is read exactly if each of its tokens is accepted after
those before it. Otherwise its fault is the one that the first other token is
blamed for; cut just before that token, and before the comma that precedes it on
its line, the text is read; and the fault stays the same whatever comes after
the token, as long as that leaves it a token.

Proof: along accepted tokens the cursor stands at their running totals, by
induction from the last token; so the next token resolves or has the fault that
it is blamed for. For the cut, the tokens before are accepted and hence not
blank, which leaves them tokens of the shortened text. -/
theorem read_accepts_or_blames_first {text : String} (short : ¬Vlq.HasLongValue text.toList)
    (sources names : List String) :
    ((∃ index, read text sources names = .ok index) ↔
      Throughout (Accepted sources names) (tokens text.toList)) ∧
    (∀ fault, read text sources names = .error fault ↔
      ∃ before token after, tokens text.toList = before ++ token :: after ∧
        Throughout (Accepted sources names) before ∧ Blamed sources names before token fault) ∧
    ∀ before token after fault, tokens text.toList = before ++ token :: after →
      Throughout (Accepted sources names) before → Blamed sources names before token fault →
      ∃ cut tail, text.toList = cut ++ joint token ++ token.text ++ tail ∧ tokens cut = before ∧
        (∃ index, read (String.ofList cut) sources names = .ok index) ∧ Delimits token tail ∧
        ∀ other, Delimits token other →
          read (String.ofList (cut ++ joint token ++ token.text ++ other)) sources names =
            .error fault := by
  have shortTokens : ∀ token ∈ tokens text.toList, ¬Vlq.HasLongValue token.text :=
    fun token member long => short (long.of_infix (infix_of_mem_tokens member))
  refine ⟨exists_read_iff_accepted shortTokens, fun fault => read_eq_error_iff_blamed shortTokens,
    ?_⟩
  intro before token after fault split accepted blamed
  exact blamed.exists_cut accepted split (short_of_split shortTokens split)

/-- The second token of the third line is blamed for the place before the first
source. -/
theorem read_accepts_or_blames_first_source :
    ∃ before token after cut, tokens "AAAA; ;CAAA,DDAA;!".toList = before ++ token :: after ∧
      Throughout (Accepted ["a.ts"] []) before ∧
      Blamed ["a.ts"] [] before token (.indexOutOfRange .sources (.ofInt (-1)) 1
        ⟨some (.ofNat 2), some (.ofNat 1), some "DDAA"⟩) ∧
      tokens cut = before ∧ ∃ index, read (String.ofList cut) ["a.ts"] [] = .ok index := by
  have short : ¬Vlq.HasLongValue "AAAA; ;CAAA,DDAA;!".toList := by
    rintro ⟨chain, next, length, _, _, inside⟩
    have fits := inside.length_le
    rw [List.length_append, length, List.length_singleton] at fits
    revert fits
    decide
  obtain ⟨_, blames, locates⟩ := read_accepts_or_blames_first short ["a.ts"] []
  have failed : read "AAAA; ;CAAA,DDAA;!" ["a.ts"] [] =
      .error (.indexOutOfRange .sources (.ofInt (-1)) 1
        ⟨some (.ofNat 2), some (.ofNat 1), some "DDAA"⟩) := by cbv
  obtain ⟨before, token, after, split, accepted, blamed⟩ := (blames _).mp failed
  obtain ⟨cut, _, _, left, success, _⟩ := locates before token after _ split accepted blamed
  exact ⟨before, token, after, cut, split, accepted, blamed, left, success⟩

end Mappings
end SourceMap

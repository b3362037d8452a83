import SourceMap.Proofs.Mappings.Reading
import SourceMap.Proofs.Number.Whole
import SourceMap.Proofs.Segment
import SourceMap.Proofs.Separators
import SourceMap.Proofs.Vlq.Runs

/-!
# Mappings as totals

What a mappings text means, without a cursor: the fields of a segment are
differences, so what it stands for are totals over the segments up to it. The
generated column adds up on the line of the segment only, the name index over the
segments that have one, and the other fields over the whole text. Reading agrees
with these totals wherever they are exact.

The totals are integers, and they are exact as numbers as long as they are below
the bound of exact integers; beyond it the cursor rounds and the two part. A total
is refused as soon as it is negative, so no bound from below is needed. What
carries the induction is `Accounted`: the cursor stands at the totals of the
segments so far, and the mappings are those of the segments with the totals up to
each. It is kept by a token, a line, a group and a text, in this order.
-/

namespace SourceMap
namespace Mappings

/-- A segment as it stands in a text: the number of its generated line, and its
fields. -/
structure Wire where
  line : Nat
  fields : List Int

/-- The integers that a token spells. -/
def fieldsOf (token : List Char) : List Int :=
  match Vlq.readRun token with
  | .ok values => values.filterMap Number.toInt?
  | .error _ => []

/-- Integers that are read are the fields. -/
theorem fieldsOf_of_readRun {token : List Char} {fields : List Int}
    (success : Vlq.readRun token = .ok (fields.map .ofInt)) : fieldsOf token = fields := by
  simp [fieldsOf, success, List.filterMap_map]

/-- A token without long values spells integers and nothing else. -/
theorem eq_fieldsOf {token : List Char} {values : List Number}
    (success : Vlq.readRun token = .ok values) (short : ¬Vlq.HasLongValue token) :
    values = (fieldsOf token).map .ofInt ∧
      ∀ field ∈ fieldsOf token, field.natAbs ≤ Coordinate.greatest := by
  obtain ⟨fields, rfl, writable⟩ := Vlq.of_readRun success short
  rw [fieldsOf_of_readRun success]
  exact ⟨rfl, writable⟩

/-- The segments of a text in their order; a line that is empty but for blanks
has none. -/
def wires (text : List Char) : List Wire :=
  (text.splitOn ';').zipIdx.flatMap fun (group, line) =>
    if Blank.trim group = [] then []
    else (group.splitOn ',').map fun token => ⟨line, fieldsOf token⟩

/-- The total of a field over segments; a segment without it adds nothing. -/
def total (number : Nat) (wires : List Wire) : Int :=
  (wires.map fun wire => wire.fields.getD number 0).sum

/-- What the segments up to one add up to. -/
structure Totals where
  generatedColumn : Int
  sourceIndex : Int
  originalLine : Int
  originalColumn : Int
  nameIndex : Int

/-- The totals of the segments up to one on the given line. -/
def totals (upTo : List Wire) (line : Nat) : Totals where
  generatedColumn := total 0 (upTo.filter (·.line = line))
  sourceIndex := total 1 upTo
  originalLine := total 2 upTo
  originalColumn := total 3 upTo
  nameIndex := total 4 (upTo.filter (·.fields.length = 5))

/-- Every segment with the totals up to it. -/
def summed (wires : List Wire) : List (Wire × Totals) :=
  wires.zipIdx.map fun (wire, place) => (wire, totals (wires.take (place + 1)) wire.line)

namespace Totals

/-- Whether all totals are below the bound of exact integers. -/
structure Exact (totals : Totals) : Prop where
  generatedColumn : totals.generatedColumn < Number.exactBound
  sourceIndex : totals.sourceIndex < Number.exactBound
  originalLine : totals.originalLine < Number.exactBound
  originalColumn : totals.originalColumn < Number.exactBound
  nameIndex : totals.nameIndex < Number.exactBound

/-- Whether a segment has four fields or five, its totals are coordinates and
places of the table of sources, and, with five fields, the total of the last is
one of the table of names. -/
structure Resolves (sources names : List String) (wire : Wire) (totals : Totals) : Prop where
  fields : wire.fields.length = 4 ∨ wire.fields.length = 5
  generatedColumn : 0 ≤ totals.generatedColumn
  originalLine : 0 ≤ totals.originalLine
  originalColumn : 0 ≤ totals.originalColumn
  sourceIndex : 0 ≤ totals.sourceIndex ∧ totals.sourceIndex < sources.length
  nameIndex : wire.fields.length = 5 → 0 ≤ totals.nameIndex ∧ totals.nameIndex < names.length

/-- The cursor that stands at given totals. -/
def cursor (totals : Totals) : Cursor where
  generatedColumn := .ofInt totals.generatedColumn
  sourceIndex := .ofInt totals.sourceIndex
  originalLine := .ofInt totals.originalLine
  originalColumn := .ofInt totals.originalColumn
  nameIndex := .ofInt totals.nameIndex

/-- The mapping of a segment with given totals: from the source and the original
position that they reach to the generated position, under the name that they
reach if the segment has five fields. -/
def mapping (sources names : List String) (wire : Wire) (totals : Totals) : Mapping where
  source := sources[totals.sourceIndex.toNat]?.getD ""
  line := .ofInt totals.originalLine
  column := .ofInt totals.originalColumn
  target := .placed (.ofNat wire.line) (.ofInt totals.generatedColumn)
    (if wire.fields.length = 5 then names[totals.nameIndex.toNat]? else none)

end Totals

/-- Another segment adds its field to a total. -/
theorem total_append (number : Nat) (done : List Wire) (wire : Wire) :
    total number (done ++ [wire]) = total number done + wire.fields.getD number 0 := by
  simp [total]

/-- A segment adds its fields to the totals; without a name it leaves the name
index. -/
theorem totals_append (done : List Wire) (line : Nat) (column source originalLine place : Int)
    (name : Option Int) :
    totals (done ++ [⟨line, [column, source, originalLine, place] ++ name.toList⟩]) line =
      { generatedColumn := total 0 (done.filter (·.line = line)) + column
        sourceIndex := total 1 done + source
        originalLine := total 2 done + originalLine
        originalColumn := total 3 done + place
        nameIndex := total 4 (done.filter (·.fields.length = 5)) + name.getD 0 } := by
  cases name <;> simp [totals, total_append]

/-- A view of every element and those up to it does not see what comes later. -/
theorem map_zipIdx_take_append {α β : Type} (view : List α → α → β) (done rest : List α) :
    ((done ++ rest).zipIdx.map fun (element, place) =>
        view ((done ++ rest).take (place + 1)) element) =
      (done.zipIdx.map fun (element, place) => view (done.take (place + 1)) element) ++
        (rest.zipIdx done.length).map fun (element, place) =>
          view ((done ++ rest).take (place + 1)) element := by
  rw [List.zipIdx_append, List.map_append]
  congr 1
  · apply List.map_congr_left
    rintro ⟨element, place⟩ member
    have inside : place + 1 ≤ done.length := by
      have := (List.mem_zipIdx member).2.1
      omega
    simp only [List.take_append_of_le_length inside]
  · simp

/-- The last element is viewed with all of them. -/
theorem map_zipIdx_take_concat {α β : Type} (view : List α → α → β) (done : List α) (last : α) :
    ((done ++ [last]).zipIdx.map fun (element, place) =>
        view ((done ++ [last]).take (place + 1)) element) =
      (done.zipIdx.map fun (element, place) => view (done.take (place + 1)) element) ++
        [view (done ++ [last]) last] := by
  have whole : (done ++ [last]).take (done.length + 1) = done ++ [last] :=
    List.take_of_length_le (by simp)
  rw [map_zipIdx_take_append]
  simp [whole]

/-- Further segments leave the totals of the earlier ones as they are. -/
theorem summed_append (done rest : List Wire) :
    summed (done ++ rest) = summed done ++ (rest.zipIdx done.length).map fun (wire, place) =>
      (wire, totals ((done ++ rest).take (place + 1)) wire.line) :=
  map_zipIdx_take_append (fun upTo wire => (wire, totals upTo wire.line)) done rest

/-- One more segment comes with the totals of all. -/
theorem summed_append_singleton (done : List Wire) (wire : Wire) :
    summed (done ++ [wire]) = summed done ++ [(wire, totals (done ++ [wire]) wire.line)] :=
  map_zipIdx_take_concat (fun upTo wire => (wire, totals upTo wire.line)) done wire

/-- As many segments have totals as there are. -/
theorem length_summed (wires : List Wire) : (summed wires).length = wires.length := by
  simp [summed]

/-- A text is empty but for blanks exactly if trimming leaves nothing of it. -/
theorem trim_eq_nil_iff (group : List Char) :
    Blank.trim group = [] ↔ Blank.isBlankText group = true := by
  rw [Blank.trim, List.reverse_eq_nil_iff, List.dropWhile_eq_nil_iff, Blank.isBlankText,
    List.all_eq_true]
  constructor
  · intro left char member
    rw [← List.takeWhile_append_dropWhile (p := Blank.isBlank) (l := group)] at member
    rcases List.mem_append.mp member with leading | other
    · exact List.mem_takeWhile_imp leading
    · exact left char (List.mem_reverse.mpr other)
  · intro blank char member
    exact blank char ((List.dropWhile_sublist _).mem (List.mem_reverse.mp member))

/-- The segment of a token. -/
def Token.wire (token : Token) : Wire := ⟨token.line, fieldsOf token.text⟩

/-- The segments of the tokens of a line. -/
theorem map_wire_lineTokens (line start : Nat) (texts : List (List Char)) :
    (lineTokens line start texts).map Token.wire =
      texts.map fun text => Wire.mk line (fieldsOf text) := by
  induction texts generalizing start with
  | nil => rfl
  | cons text rest inductionHypothesis =>
    rw [lineTokens_cons, List.map_cons, List.map_cons, inductionHypothesis]
    rfl

/-- The segments of a text are those of its tokens. -/
theorem wires_eq (text : List Char) : wires text = (tokens text).map Token.wire := by
  rw [wires, tokens, tokensFrom, List.map_flatMap]
  apply List.flatMap_congr
  rintro ⟨group, line⟩ _
  by_cases blank : Blank.isBlankText group = true
  · simp [groupTokens, trim_eq_nil_iff, blank]
  · simp [groupTokens, trim_eq_nil_iff, blank, map_wire_lineTokens]

/-- The texts of the tokens of a line are those that it was made of. -/
theorem text_mem_of_mem_lineTokens {line start : Nat} {texts : List (List Char)} {token : Token}
    (member : token ∈ lineTokens line start texts) : token.text ∈ texts := by
  obtain ⟨⟨text, segment⟩, listed, rfl⟩ := List.mem_map.mp member
  exact List.fst_mem_of_mem_zipIdx listed

/-- The text of a token is a part of the text that it is in. -/
theorem infix_of_mem_tokens {text : List Char} {token : Token} (member : token ∈ tokens text) :
    token.text <:+: text := by
  obtain ⟨⟨group, line⟩, groupMember, inside⟩ := List.mem_flatMap.mp member
  change token ∈ groupTokens line group at inside
  have groupInfix := infix_of_mem_splitOn (List.fst_mem_of_mem_zipIdx groupMember)
  by_cases blank : Blank.isBlankText group = true
  · simp [groupTokens_of_blank line blank] at inside
  · rw [groupTokens_of_not_blank line (by simpa using blank)] at inside
    have tokenInfix := infix_of_mem_splitOn (text_mem_of_mem_lineTokens inside)
    exact tokenInfix.trans groupInfix

/-- Where a text has no long value no token has one. -/
theorem not_hasLongValue_of_mem_tokens {text : List Char} (short : ¬Vlq.HasLongValue text)
    {token : Token} (member : token ∈ tokens text) : ¬Vlq.HasLongValue token.text := fun long =>
  short (long.of_infix (infix_of_mem_tokens member))

/-- Advancing by integers takes four of them, or five with a name. -/
theorem advance_ofInt {previous next : Cursor} {segment : Segment} {fields : List Int}
    {location : Location}
    (success : previous.advance (fields.map .ofInt) location = .ok (segment, next)) :
    ∃ (column source line place : Int) (name : Option Int),
      fields = [column, source, line, place] ++ name.toList ∧
      next = ⟨previous.generatedColumn + .ofInt column, previous.sourceIndex + .ofInt source,
        previous.originalLine + .ofInt line, previous.originalColumn + .ofInt place,
        (name.map fun step => previous.nameIndex + .ofInt step).getD previous.nameIndex⟩ ∧
      segment = next.segment name.isSome := by
  rcases fields with
    _ | ⟨column, _ | ⟨source, _ | ⟨line, _ | ⟨place, _ | ⟨name, _ | ⟨more, rest⟩⟩⟩⟩⟩⟩
  case cons.cons.cons.cons.nil =>
    obtain ⟨rfl, rfl⟩ := Prod.mk.inj (Except.ok.inj success)
    exact ⟨column, source, line, place, none, rfl, rfl, rfl⟩
  case cons.cons.cons.cons.cons.nil =>
    obtain ⟨rfl, rfl⟩ := Prod.mk.inj (Except.ok.inj success)
    exact ⟨column, source, line, place, some name, rfl, rfl, rfl⟩
  all_goals cases success

/-- Adding a field that can be written to a total is exact as long as the result
is. -/
theorem ofInt_add_field {sum field : Int} (nonnegative : 0 ≤ sum)
    (writable : field.natAbs ≤ Coordinate.greatest) (exact : sum + field < Number.exactBound) :
    Number.ofInt sum + .ofInt field = .ofInt (sum + field) := by
  apply Number.ofInt_add_ofInt
  rw [Coordinate.greatest_eq] at writable
  unfold Number.exactBound at exact ⊢
  omega

/-- An integer that is not negative as a number is not negative. -/
theorem nonnegative_of_isNegative {value : Int}
    (checked : (Number.ofInt value).isNegative = false) : 0 ≤ value := by
  have notBelow : ¬((value : Rat) < 0) := by simpa [Number.isNegative, Number.ofInt] using checked
  exact_mod_cast not_lt.mp notBelow

/-- The entry at an integer that is not negative. -/
theorem entryAt?_ofInt {α : Type} (entries : List α) {place : Int} (nonnegative : 0 ≤ place) :
    entryAt? entries (.ofInt place) = entries[place.toNat]? := by
  obtain ⟨number, rfl⟩ := Int.eq_ofNat_of_zero_le nonnegative
  simp [entryAt?, ← Number.ofNat_eq_ofInt]

/-- A segment that resolves where its totals stand has totals that resolve, and
stands for the mapping that they give. The guards of reading are about numbers and
refuse what is below zero or beyond a table; on whole totals this is to say that
they are coordinates and places of the tables, so that the look-ups by place
agree. -/
theorem Totals.resolve_of_resolvesTo {sources names : List String} (wire : Wire) {totals : Totals}
    {found : Resolved} (count : wire.fields.length = 4 ∨ wire.fields.length = 5)
    (resolvesTo : ResolvesTo sources names
      (totals.cursor.segment (decide (wire.fields.length = 5))) found) :
    totals.Resolves sources names wire ∧
      Mapping.mk found.source found.originalLine found.originalColumn
        (.placed (.ofNat wire.line) found.generatedColumn found.name) =
          totals.mapping sources names wire := by
  have sourceInside : 0 ≤ totals.sourceIndex ∧ totals.sourceIndex < sources.length :=
    Number.isOutside_ofInt_eq_false_iff.mp resolvesTo.sourceChecked
  have resolves (nameIndex : wire.fields.length = 5 →
      0 ≤ totals.nameIndex ∧ totals.nameIndex < names.length) :
      totals.Resolves sources names wire :=
    { fields := count
      generatedColumn := nonnegative_of_isNegative resolvesTo.columnChecked
      originalLine := nonnegative_of_isNegative resolvesTo.lineChecked
      originalColumn := nonnegative_of_isNegative resolvesTo.placeChecked
      sourceIndex := sourceInside
      nameIndex }
  have source : sources[totals.sourceIndex.toNat]? = some found.source :=
    (entryAt?_ofInt sources sourceInside.1).symm.trans resolvesTo.entryAt?_eq
  rw [Totals.mapping, source, resolvesTo.originalLine, resolvesTo.originalColumn,
    resolvesTo.generatedColumn]
  by_cases named : wire.fields.length = 5
  · have index : (totals.cursor.segment (decide (wire.fields.length = 5))).nameIndex =
        some (.ofInt totals.nameIndex) := by simp [Cursor.segment, named, Totals.cursor]
    have nameInside : 0 ≤ totals.nameIndex ∧ totals.nameIndex < names.length :=
      Number.isOutside_ofInt_eq_false_iff.mp (resolvesTo.nameChecked _ index)
    have name : found.name = names[totals.nameIndex.toNat]? := by
      rw [resolvesTo.name, index, Option.bind_some, entryAt?_ofInt names nameInside.1]
    refine ⟨resolves fun _ => nameInside, ?_⟩
    rw [if_pos named, name]
    rfl
  · have index : (totals.cursor.segment (decide (wire.fields.length = 5))).nameIndex = none := by
      simp [Cursor.segment, named]
    refine ⟨resolves fun named' => absurd named' named, ?_⟩
    have name : found.name = none := by rw [resolvesTo.name, index, Option.bind_none]
    rw [if_neg named, name]
    rfl

/-- Whether a number is a total that is not negative. -/
def IsTotal (number : Number) (sum : Int) : Prop := number = .ofInt sum ∧ 0 ≤ sum

/-- What reading has made of the segments so far: the cursor stands at their
totals, and the mappings are those of the segments with the totals up to each.
The generated column is left out, as it starts afresh on every line;
`ColumnReached` says where it stands on one. -/
structure Accounted (sources names : List String) (done : List Wire) (mappings : List Mapping)
    (cursor : Cursor) : Prop where
  sourceIndex : IsTotal cursor.sourceIndex (total 1 done)
  originalLine : IsTotal cursor.originalLine (total 2 done)
  originalColumn : IsTotal cursor.originalColumn (total 3 done)
  nameIndex : IsTotal cursor.nameIndex (total 4 (done.filter (·.fields.length = 5)))
  mappings : mappings = (summed done).map fun entry => entry.2.mapping sources names entry.1
  resolve : ∀ entry ∈ summed done, entry.2.Resolves sources names entry.1

/-- Before the first segment all totals are zero. -/
theorem accounted_start (sources names : List String) : Accounted sources names [] [] .start := by
  constructor <;> simp [IsTotal, total, summed, Cursor.start] <;> rfl

/-- The generated column that a cursor stands at on a line. -/
def ColumnReached (done : List Wire) (line : Nat) (cursor : Cursor) : Prop :=
  IsTotal cursor.generatedColumn (total 0 (done.filter (·.line = line)))

namespace Accounted

variable {sources names : List String} {done : List Wire} {mappings : List Mapping}
  {cursor next : Cursor}

/-- Starting a line afresh does not change what is accounted for. -/
theorem startFrom (accounted : Accounted sources names done mappings cursor) (token : Token) :
    Accounted sources names done mappings (token.startFrom cursor) := by
  unfold Token.startFrom
  split
  · exact { accounted with }
  · exact accounted

/-- Advancing leads to the totals with the next segment. Each sum of the cursor is
the total so far with a field added; both are whole and the result is below the
bound, so that the sum is not rounded. -/
theorem advance_eq (accounted : Accounted sources names done mappings cursor) {line : Nat}
    (column : ColumnReached done line cursor) {fields : List Int}
    (writable : ∀ field ∈ fields, field.natAbs ≤ Coordinate.greatest)
    (exact : (totals (done ++ [⟨line, fields⟩]) line).Exact) {segment : Segment}
    {location : Location}
    (success : cursor.advance (fields.map .ofInt) location = .ok (segment, next)) :
    (fields.length = 4 ∨ fields.length = 5) ∧
      next = (totals (done ++ [⟨line, fields⟩]) line).cursor ∧
      segment = next.segment (fields.length = 5) := by
  obtain ⟨columnStep, sourceStep, lineStep, placeStep, nameStep, rfl, rfl, rfl⟩ :=
    advance_ofInt success
  rw [totals_append] at exact ⊢
  have columnIs := ofInt_add_field column.2 (writable columnStep (by simp)) exact.generatedColumn
  have sourceIs := ofInt_add_field accounted.sourceIndex.2 (writable sourceStep (by simp))
    exact.sourceIndex
  have lineIs := ofInt_add_field accounted.originalLine.2 (writable lineStep (by simp))
    exact.originalLine
  have placeIs := ofInt_add_field accounted.originalColumn.2 (writable placeStep (by simp))
    exact.originalColumn
  simp only [Totals.cursor, column.1, accounted.sourceIndex.1, accounted.originalLine.1,
    accounted.originalColumn.1, accounted.nameIndex.1, columnIs, sourceIs, lineIs, placeIs]
  cases nameStep with
  | none => exact ⟨Or.inl rfl, by simp, rfl⟩
  | some nameStep =>
    have nameIs := ofInt_add_field accounted.nameIndex.2 (writable nameStep (by simp))
      exact.nameIndex
    exact ⟨Or.inr rfl, by simp [nameIs], rfl⟩

/-- A segment that resolves is accounted for with the totals up to it. These have
to be exact, and the cursor has to stand at the generated column of the line,
which is the total that starts afresh. Afterwards it stands at the new totals,
none of which is negative, as the segment was not refused. -/
theorem step (accounted : Accounted sources names done mappings cursor) (token : Token)
    (column : ColumnReached done token.line (token.startFrom cursor))
    (short : ¬Vlq.HasLongValue token.text)
    (exact : (totals (done ++ [token.wire]) token.line).Exact) {mapping : Mapping}
    (success : token.resolve sources names cursor = .ok (mapping, next)) :
    Accounted sources names (done ++ [token.wire]) (mappings ++ [mapping]) next ∧
      ColumnReached (done ++ [token.wire]) token.line next := by
  obtain ⟨offset, read, success⟩ := Walk.bind_eq_ok.mp success
  obtain ⟨⟨resolved, reached⟩, stepped, success⟩ := Walk.bind_eq_ok.mp success
  obtain ⟨⟨segment, left⟩, advanced, stepped⟩ := Walk.bind_eq_ok.mp stepped
  obtain ⟨found, looked, stepped⟩ := Walk.bind_eq_ok.mp stepped
  obtain ⟨rfl, rfl⟩ := Prod.mk.inj (Except.ok.inj stepped)
  obtain ⟨rfl, rfl⟩ := Prod.mk.inj (Except.ok.inj success)
  obtain ⟨rfl, writable⟩ := eq_fieldsOf (Walk.mapError_eq_ok.mp read) short
  obtain ⟨count, rfl, rfl⟩ :=
    (accounted.startFrom token).advance_eq column writable exact advanced
  have resolvesTo := resolvesTo_of_resolve looked
  obtain ⟨resolve, isMapping⟩ := Totals.resolve_of_resolvesTo token.wire count resolvesTo
  have nameIndex : 0 ≤ (totals (done ++ [token.wire]) token.line).nameIndex := by
    by_cases named : token.wire.fields.length = 5
    · exact (resolve.nameIndex named).1
    · simpa [totals, named] using accounted.nameIndex.2
  refine ⟨⟨⟨rfl, resolve.sourceIndex.1⟩, ⟨rfl, resolve.originalLine⟩, ⟨rfl, resolve.originalColumn⟩,
    ⟨rfl, nameIndex⟩, ?_, ?_⟩, rfl, resolve.generatedColumn⟩
  · rw [summed_append_singleton, List.map_append, accounted.mappings]
    exact congrArg (_ ++ [·]) isMapping
  · intro entry member
    rw [summed_append_singleton] at member
    rcases List.mem_append.mp member with earlier | last
    · exact accounted.resolve entry earlier
    · obtain rfl := List.mem_singleton.mp last
      exact resolve

/-- The segments of a line are accounted for one after the other, from the
column that the cursor stands at. -/
theorem line (accounted : Accounted sources names done mappings cursor) {line start : Nat}
    (column : ∀ text, ColumnReached done line (Token.startFrom ⟨line, start, text⟩ cursor))
    {texts : List (List Char)} {more : List Token} {results : List Mapping}
    (short : ∀ token ∈ lineTokens line start texts, ¬Vlq.HasLongValue token.text)
    (exact : ∀ entry ∈ summed (done ++ (lineTokens line start texts).map Token.wire), entry.2.Exact)
    (success : resolveAll sources names cursor (lineTokens line start texts ++ more) =
      .ok results) :
    ∃ here later next, results = here ++ later ∧
      Accounted sources names (done ++ (lineTokens line start texts).map Token.wire)
        (mappings ++ here) next ∧
      resolveAll sources names next more = .ok later := by
  induction texts generalizing done mappings cursor start results with
  | nil => exact ⟨[], results, cursor, rfl, by simpa using accounted, success⟩
  | cons text rest inductionHypothesis =>
    obtain ⟨⟨mapping, next⟩, first, success⟩ := Walk.bind_eq_ok.mp success
    obtain ⟨others, further, success⟩ := Walk.bind_eq_ok.mp success
    obtain rfl := Except.ok.inj success
    rw [lineTokens_cons] at short
    rw [lineTokens_cons, List.map_cons, List.append_cons] at exact ⊢
    have firstExact := exact (Token.wire ⟨line, start, text⟩, _) (by
      rw [summed_append, summed_append_singleton]
      exact List.mem_append_left _ (List.mem_append_right _ List.mem_cons_self))
    obtain ⟨stepped, reached⟩ := accounted.step ⟨line, start, text⟩ (column text)
      (short _ List.mem_cons_self) firstExact first
    obtain ⟨here, later, last, rfl, accountedRest, remaining⟩ := inductionHypothesis stepped
      (fun _ => by simpa [Token.startFrom] using reached)
      (fun token member => short token (List.mem_cons_of_mem _ member)) exact further
    exact ⟨mapping :: here, later, last, rfl, by simpa using accountedRest, remaining⟩

/-- The segments of a group are accounted for on a line that none of the earlier
ones is on. -/
theorem group (accounted : Accounted sources names done mappings cursor) {line : Nat}
    (fresh : ∀ wire ∈ done, wire.line < line) {group : List Char} {more : List Token}
    {results : List Mapping}
    (short : ∀ token ∈ groupTokens line group, ¬Vlq.HasLongValue token.text)
    (exact : ∀ entry ∈ summed (done ++ (groupTokens line group).map Token.wire), entry.2.Exact)
    (success : resolveAll sources names cursor (groupTokens line group ++ more) = .ok results) :
    ∃ here later next, results = here ++ later ∧
      Accounted sources names (done ++ (groupTokens line group).map Token.wire)
        (mappings ++ here) next ∧
      resolveAll sources names next more = .ok later := by
  by_cases blank : Blank.isBlankText group = true
  · rw [groupTokens_of_blank line blank] at success ⊢
    exact ⟨[], results, cursor, rfl, by simpa using accounted, success⟩
  · rw [groupTokens_of_not_blank line (by simpa using blank)] at short exact success ⊢
    refine accounted.line ?_ short exact success
    intro text
    have nothing : done.filter (·.line = line) = [] := by
      rw [List.filter_eq_nil_iff]
      intro wire member
      have earlier := fresh wire member
      simp only [decide_eq_true_eq]
      omega
    rw [ColumnReached, nothing]
    exact ⟨rfl, le_rfl⟩

/-- The lines of a text are accounted for one after the other. No segment so far
may be on one of them, since a line starts with a total of zero for its own
column. -/
theorem lines (accounted : Accounted sources names done mappings cursor) {start : Nat}
    (fresh : ∀ wire ∈ done, wire.line < start) {groups : List (List Char)} {results : List Mapping}
    (short : ∀ token ∈ tokensFrom start groups, ¬Vlq.HasLongValue token.text)
    (exact : ∀ entry ∈ summed (done ++ (tokensFrom start groups).map Token.wire), entry.2.Exact)
    (success : resolveAll sources names cursor (tokensFrom start groups) = .ok results) :
    ∃ next, Accounted sources names (done ++ (tokensFrom start groups).map Token.wire)
      (mappings ++ results) next := by
  induction groups generalizing done mappings cursor start results with
  | nil =>
    obtain rfl := Except.ok.inj success
    exact ⟨cursor, by simpa using accounted⟩
  | cons group rest inductionHypothesis =>
    rw [tokensFrom_cons] at short success
    rw [tokensFrom_cons, List.map_append, ← List.append_assoc] at exact ⊢
    obtain ⟨here, later, next, rfl, accountedHere, remaining⟩ := accounted.group fresh
      (fun token member => short token (List.mem_append_left _ member))
      (fun entry member => exact entry (by
        rw [summed_append]
        exact List.mem_append_left _ member)) success
    rw [← List.append_assoc]
    refine inductionHypothesis accountedHere ?_
      (fun token member => short token (List.mem_append_right _ member)) exact remaining
    intro wire member
    rcases List.mem_append.mp member with earlier | own
    · exact Nat.lt_succ_of_lt (fresh wire earlier)
    · obtain ⟨token, inside, rfl⟩ := List.mem_map.mp own
      exact Nat.lt_succ_of_le (line_of_mem_groupTokens inside).le

end Accounted

/-- Reading agrees with the totals. Where all totals are exact and no value is
long, the sources of the index are those of the table, each once; every segment
resolves; each origin holds, in the order of the text, the targets of the
segments whose totals reach it; and there are as many targets as segments.

Neither the totals nor the segments refer to the reader: the segments are the
integers that the parts between separators spell, and a total is a sum over a
list of them. The proof goes through the lines of the text with the invariant
`Accounted` and then reads the result off it. -/
theorem read_eq_totals {text : String} {sources names : List String} {index : OriginIndex}
    (success : read text sources names = .ok index)
    (exact : ∀ entry ∈ summed (wires text.toList), entry.2.Exact)
    (short : ¬Vlq.HasLongValue text.toList) :
    index.sourceNames = sources.eraseDups ∧
      (∀ entry ∈ summed (wires text.toList), entry.2.Resolves sources names entry.1) ∧
      (∀ source line column, index.targetsAt source line column =
        Mapping.targetsAt ((summed (wires text.toList)).map fun entry =>
          entry.2.mapping sources names entry.1) source line column) ∧
      index.count = (wires text.toList).length := by
  have sourceNames := sourceNames_of_read success
  obtain ⟨mappings, resolved, rfl⟩ := read_eq_ok.mp success
  rw [wires_eq] at exact ⊢
  obtain ⟨cursor, accounted⟩ := (accounted_start sources names).lines (by simp)
    (fun token member => not_hasLongValue_of_mem_tokens short member) exact resolved
  have same : mappings = (summed ((tokens text.toList).map Token.wire)).map fun entry =>
      entry.2.mapping sources names entry.1 := accounted.mappings
  refine ⟨sourceNames, accounted.resolve, ?_, ?_⟩
  · intro source line column
    rw [OriginIndex.targetsAt_ofMappings, ← same]
  · rw [OriginIndex.count_ofMappings, same, List.length_map, length_summed]

/-- Three segments on two lines, with a blank line between them. -/
theorem read_eq_totals_three :
    ∃ index, read "AAAAA,EAAE; ;CCAAC" ["a.ts", "b.ts"] ["x", "y"] = .ok index ∧
      index.sourceNames = ["a.ts", "b.ts"] ∧
      index.targetsAt "b.ts" 0 2 = [.placed 2 1 (some "y")] ∧ index.count = 3 := by
  obtain ⟨index, success⟩ : ∃ index,
      read "AAAAA,EAAE; ;CCAAC" ["a.ts", "b.ts"] ["x", "y"] = .ok index :=
    Walk.exists_of_isOk (by cbv)
  have spelled : wires "AAAAA,EAAE; ;CCAAC".toList =
      [⟨0, [0, 0, 0, 0, 0]⟩, ⟨0, [2, 0, 0, 2]⟩, ⟨2, [1, 1, 0, 0, 1]⟩] := by cbv
  have added : summed [⟨0, [0, 0, 0, 0, 0]⟩, ⟨0, [2, 0, 0, 2]⟩, ⟨2, [1, 1, 0, 0, 1]⟩] =
      [(⟨0, [0, 0, 0, 0, 0]⟩, ⟨0, 0, 0, 0, 0⟩), (⟨0, [2, 0, 0, 2]⟩, ⟨2, 0, 0, 2, 0⟩),
        (⟨2, [1, 1, 0, 0, 1]⟩, ⟨1, 1, 0, 2, 1⟩)] := by rfl
  have exact : ∀ entry ∈ summed (wires "AAAAA,EAAE; ;CCAAC".toList), entry.2.Exact := by
    intro entry member
    rw [spelled, added] at member
    simp only [List.mem_cons, List.not_mem_nil, or_false] at member
    rcases member with rfl | rfl | rfl <;> constructor <;> decide
  have short : ¬Vlq.HasLongValue "AAAAA,EAAE; ;CCAAC".toList :=
    Vlq.not_hasLongValue_of_length_le (by decide)
  obtain ⟨sources, _, targets, count⟩ := read_eq_totals success exact short
  rw [spelled, added] at targets
  rw [spelled] at count
  refine ⟨index, success, sources.trans (by decide), ?_, count⟩
  rw [targets]
  cbv

end Mappings
end SourceMap

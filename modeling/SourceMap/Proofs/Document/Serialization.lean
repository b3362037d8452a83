import SourceMap.Proofs.Document.Composition
import SourceMap.Proofs.Json.Fields
import SourceMap.Proofs.Json.RoundTrip
import SourceMap.Proofs.Mappings.WholeIndexes

/-!
# Documents as JSON text

A document survives being written: its text, compact or indented and with spaces
behind it, is accepted and read as the same document, whatever its strings hold
and whichever of its optional fields are missing. Only the number of lines must be
an exact integer. The line count of a document that was made from an index is a
coordinate, so whatever a composition writes is read back.

That last step has two conditions. A document that is made may have a source
without a name, which is written as null and then refused; so the naming has to
yield names for names, and no source may be missing from the first table. The
second is assured by mappings without long values. Documents are written in two
orders of fields; being read back is a property of every order in which each field
has one place.
-/

namespace SourceMap

/-- Whether a naming yields a name for every source that has one. -/
def SourceNaming.Names {σ : Type} [SourceKey σ] (naming : SourceNaming σ) : Prop :=
  ∀ source, SourceKey.Named source → ∀ context, SourceKey.Named (naming source context)

/-- Keeping the names yields a name for every source that has one. -/
theorem SourceNaming.names_unchanged {σ : Type} [SourceKey σ] :
    (unchanged : SourceNaming σ).Names := fun _ named _ => named

namespace Document

/-- Different fields have different names. -/
theorem Field.key_injective : Function.Injective Field.key := by
  intro left right
  cases left <;> cases right <;> decide

/-- The name of a field does not spell an index. -/
theorem Field.index?_key (field : Field) : Fields.index? field.key = none := by
  cases field <;> rfl

/-- An order in which every field has one place. Both orders in use are
complete, and reading does not depend on which one it was. -/
structure Field.Complete (order : List Field) : Prop where
  mem : ∀ field, field ∈ order
  nodup : order.Nodup

/-- The order of the fields of a document that was read is complete. -/
theorem Field.complete_orderOfRead : Field.Complete Field.orderOfRead where
  mem := fun field => by cases field <;> decide
  nodup := by decide

/-- The order of the fields of a document that was made is complete. -/
theorem Field.complete_orderOfMade : Field.Complete Field.orderOfMade where
  mem := fun field => by cases field <;> decide
  nodup := by decide

/-- Whether the line count of a document is missing or a natural number below
the exact bound. -/
def HasSafeLineCount {σ : Type} (document : Document σ) : Prop :=
  ∀ number ∈ document.lineCount, ∃ value < Number.exactBound, number = .ofNat value

/-- A missing line count is safe. -/
theorem hasSafeLineCount_of_eq_none {σ : Type} {document : Document σ}
    (missing : document.lineCount = none) :
    document.HasSafeLineCount := by
  intro number found
  rw [missing] at found
  exact nomatch found

/-- A walk over written elements that reads each of them back yields the
elements. -/
theorem mapM_map {α β : Type} {write : α → β} {read : β → Option α}
    (readsBack : ∀ element, read (write element) = some element) (elements : List α) :
    (elements.map write).mapM read = some elements := by
  induction elements with
  | nil => rfl
  | cons element rest inductionHypothesis =>
    rw [List.map_cons, List.mapM_cons, readsBack, inductionHypothesis]
    rfl

/-- Written strings are read back. -/
theorem strings?_map (texts : List String) :
    strings? (some (.array (texts.map .string))) = some texts := by
  have readsBack (text : String) : (Json.string text).string? = some text := rfl
  exact mapM_map readsBack texts

/-- Written contents of sources are read back. -/
theorem contents?_map (contents : List (Option String)) :
    contents? (.array (contents.map fun content => (content.map Json.string).getD .null)) =
      some contents := by
  refine mapM_map (fun content => ?_) contents
  cases content <;> rfl

/-- A document is read back from its fields, if its line count is a natural
number. A field that is missing is looked up as nothing and checked as optional;
the file is always there, since a document that was read without one has the
empty file. -/
theorem ofFields_get? {document : Document} {field : String → Option Json}
    (fields : ∀ name : Field, field name.key = document.get? name)
    (safe : document.HasSafeLineCount) : ofFields field = .ok document := by
  obtain ⟨file, sources, mappings, names, sourceRoot, sourcesContent, lineCount⟩ := document
  have version : checkVersion (field "version") = .ok () := by
    rw [show field "version" = _ from fields .version]
    rfl
  have isFile : optional .file Json.string? (field "file") = .ok (some file) := by
    rw [show field "file" = _ from fields .file]
    rfl
  have areSources : strings? (field "sources") = some sources := by
    rw [show field "sources" = _ from fields .sources]
    exact strings?_map sources
  have areNames : strings? (field "names") = some names := by
    rw [show field "names" = _ from fields .names]
    exact strings?_map names
  have areMappings : (field "mappings").bind Json.string? = some mappings := by
    rw [show field "mappings" = _ from fields .mappings]
    rfl
  have isRoot : optional .sourceRoot Json.string? (field "sourceRoot") = .ok sourceRoot := by
    rw [show field "sourceRoot" = _ from fields .sourceRoot]
    cases sourceRoot <;> rfl
  have areContents : optional .sourcesContent contents? (field "sourcesContent") =
      .ok sourcesContent := by
    rw [show field "sourcesContent" = _ from fields .sourcesContent]
    cases sourcesContent with
    | none => rfl
    | some contents =>
      change some <$> require _ (contents? _) = _
      rw [contents?_map]
      rfl
  have isCount : checkLineCount (field "lineCount") = .ok lineCount := by
    rw [show field "lineCount" = _ from fields .lineCount]
    cases lineCount with
    | none => rfl
    | some number =>
      obtain ⟨value, _, rfl⟩ := safe number rfl
      change some <$> require _ (Option.filter _ (some _)) = _
      simp only [Option.filter_some, Number.toNat?_ofNat, Option.isSome_some, if_true]
      rfl
  rw [ofFields, version, isFile, areSources, areNames, areMappings, isRoot, areContents, isCount]
  rfl

/-- Every field of a document is written as a value that can be read back. Only the
line count asks for something, since a number that is not exact may be written as
another one. -/
theorem writable_of_get? {σ : Type} [SourceKey σ] {document : Document σ}
    (safe : document.HasSafeLineCount) {field : Field} {value : Json}
    (found : document.get? field = some value) : value.Writable := by
  cases field with
  | version =>
    obtain rfl := Option.some.inj found
    exact .number (Number.isExactInteger_ofNat (by decide))
  | file =>
    obtain rfl := Option.some.inj found
    exact .string _
  | sources =>
    obtain rfl := Option.some.inj found
    refine .array fun item member => ?_
    obtain ⟨key, _, rfl⟩ := List.mem_map.mp member
    unfold SourceKey.json
    cases SourceKey.name? key with
    | none => exact .null
    | some name => exact .string name
  | mappings =>
    obtain rfl := Option.some.inj found
    exact .string _
  | names =>
    obtain rfl := Option.some.inj found
    refine .array fun item member => ?_
    obtain ⟨text, _, rfl⟩ := List.mem_map.mp member
    exact .string text
  | sourceRoot =>
    obtain ⟨root, _, rfl⟩ := Option.map_eq_some_iff.mp found
    exact .string root
  | sourcesContent =>
    obtain ⟨contents, _, rfl⟩ := Option.map_eq_some_iff.mp found
    refine .array fun item member => ?_
    obtain ⟨content, _, rfl⟩ := List.mem_map.mp member
    cases content with
    | none => exact .null
    | some text => exact .string text
  | lineCount =>
    obtain ⟨number, isCount, rfl⟩ := Option.map_eq_some_iff.mp found
    obtain ⟨count, small, rfl⟩ := safe number isCount
    exact .number (Number.isExactInteger_ofNat small.le)

/-- The JSON object of a document can be read back, whatever the keys of its
sources are. Each of its values can, and no key stands in it twice. -/
theorem writable_toJson {σ : Type} [SourceKey σ] {order : List Field} (nodup : order.Nodup)
    {document : Document σ} (safe : document.HasSafeLineCount) :
    (document.toJson order).Writable := by
  refine .object ?_ (Json.ofFields_eq ?_ ?_)
  · intro entry member
    obtain ⟨field, _, found⟩ := List.mem_filterMap.mp member
    obtain ⟨value, isValue, rfl⟩ := Option.map_eq_some_iff.mp found
    exact writable_of_get? safe isValue
  · exact Fields.nodup_filterMap Field.key_injective _ nodup
  · intro entry member
    obtain ⟨field, _, found⟩ := List.mem_filterMap.mp member
    obtain ⟨value, _, rfl⟩ := Option.map_eq_some_iff.mp found
    exact field.index?_key

/-- The JSON object of a document is accepted and read as the document. -/
theorem ofJson_toJson {order : List Field} (complete : Field.Complete order) {document : Document}
    (safe : document.HasSafeLineCount) : ofJson (document.toJson order) = .ok document := by
  refine ofFields_get? (fun field => ?_) safe
  rw [Fields.get?_filterMap Field.key_injective, if_pos (complete.mem field)]

/-- The text of a document is checked as its JSON object, also with spaces
behind it. -/
theorem ofText_text_append_eq {σ : Type} [SourceKey σ] {order : List Field} (nodup : order.Nodup)
    {document : Document σ} (safe : document.HasSafeLineCount) (spacing : Json.Spacing)
    {space : List Char} (blank : Json.skipSpace space = []) (ends : Json.EndsNumber space) :
    ofText (document.text order spacing ++ String.ofList space) =
      ofJson (document.toJson order) := by
  rw [ofText, text, (writable_toJson nodup safe).ofText?_append spacing blank ends]

/-- No spaces are behind a text. -/
theorem ofText_text_eq {σ : Type} [SourceKey σ] {order : List Field} (nodup : order.Nodup)
    {document : Document σ} (safe : document.HasSafeLineCount) (spacing : Json.Spacing) :
    ofText (document.text order spacing) = ofJson (document.toJson order) := by
  have ends : Json.EndsNumber [] := fun _ found => nomatch found
  have nothing : String.ofList [] = "" := rfl
  have read := ofText_text_append_eq nodup safe spacing rfl ends
  rwa [nothing, String.append_empty] at read

/-- The text of a document is accepted and read as the document, also with
spaces behind it. -/
theorem ofText_text_append {order : List Field} (complete : Field.Complete order)
    {document : Document} (safe : document.HasSafeLineCount) (spacing : Json.Spacing)
    {space : List Char} (blank : Json.skipSpace space = []) (ends : Json.EndsNumber space) :
    ofText (document.text order spacing ++ String.ofList space) = .ok document := by
  rw [ofText_text_append_eq complete.nodup safe spacing blank ends]
  exact ofJson_toJson complete safe

/-- The text of a document is accepted and read as the document. -/
theorem ofText_text {order : List Field} (complete : Field.Complete order) {document : Document}
    (safe : document.HasSafeLineCount) (spacing : Json.Spacing) :
    ofText (document.text order spacing) = .ok document := by
  rw [ofText_text_eq complete.nodup safe]
  exact ofJson_toJson complete safe

/-- The greatest coordinate is below the exact bound. -/
theorem greatest_lt_exactBound : Coordinate.greatest < Number.exactBound := by decide

section Keys

variable {σ : Type} [SourceKey σ]


/-- Whether every source of a document has a name. -/
def Named (document : Document σ) : Prop := ∀ source ∈ document.sources, SourceKey.Named source

variable [LawfulSourceKey σ]

/-- A document whose sources all have names is one of names, under their keys. -/
theorem Named.exists_keyed {document : Document σ} (named : document.Named) :
    ∃ plain : Document, plain.keyed = document := by
  have sources : (document.sources.filterMap SourceKey.name?).map SourceKey.ofName =
      document.sources := by
    calc (document.sources.filterMap SourceKey.name?).map SourceKey.ofName
        = document.sources.filterMap fun key => (SourceKey.name? key).map SourceKey.ofName :=
          List.map_filterMap
      _ = document.sources.filterMap some :=
          List.filterMap_congr fun key member => (named key member).map_ofName
      _ = document.sources := List.filterMap_some
  exact ⟨{ document with sources := document.sources.filterMap SourceKey.name? },
    congrArg (fun sources => { document with sources }) sources⟩

/-- A document of names is written as it is under their keys. -/
theorem text_keyed (order : List Field) (spacing : Json.Spacing) (document : Document) :
    (document.keyed : Document σ).text order spacing = document.text order spacing := by
  have sources : (document.keyed : Document σ).sources.map SourceKey.json =
      document.sources.map Json.string := by
    simp [keyed, SourceKey.json_ofName]
  have each (field : Field) : (document.keyed : Document σ).get? field = document.get? field := by
    cases field with
    | sources => exact congrArg (fun items => some (Json.array items)) sources
    | _ => rfl
  simp only [text, toJson, each]

end Keys

section Made

variable {σ : Type} [DecidableEq σ] [SourceKey σ]

/-- The line count of a document that was made from an index is a coordinate or
missing. -/
theorem hasSafeLineCount_of_ofIndex {index : OriginIndex σ} {file : String}
    {lineCount : Option Json} {naming : SourceNaming σ} {document : Document σ}
    (success : ofIndex index file lineCount naming = .ok document) : document.HasSafeLineCount := by
  obtain ⟨count, checked, success⟩ := Walk.bind_eq_ok.mp success
  obtain ⟨written, _, success⟩ := Walk.bind_eq_ok.mp success
  obtain rfl := Except.ok.inj success
  cases lineCount with
  | none =>
    obtain rfl := Except.ok.inj checked
    exact hasSafeLineCount_of_eq_none rfl
  | some given =>
    intro number isCount
    obtain ⟨value, found, rfl⟩ := Option.map_eq_some_iff.mp isCount
    refine ⟨value, ?_, rfl⟩
    obtain ⟨coordinate, read, rfl⟩ := Walk.map_eq_ok.mp checked
    obtain rfl := Option.some.inj found
    exact (Placement.coordinate_eq_ok.mp read).2.trans_lt greatest_lt_exactBound

/-- A document that was made from an index has names for all of its sources if
the naming yields one for each source of the index. -/
theorem named_of_ofIndex {index : OriginIndex σ} {file : String} {lineCount : Option Json}
    {naming : SourceNaming σ} {document : Document σ}
    (success : ofIndex index file lineCount naming = .ok document)
    (names : ∀ source ∈ index.sourceNames, ∀ context, SourceKey.Named (naming source context)) :
    document.Named := by
  obtain ⟨count, _, success⟩ := Walk.bind_eq_ok.mp success
  obtain ⟨written, wrote, success⟩ := Walk.bind_eq_ok.mp success
  obtain rfl := Except.ok.inj success
  obtain ⟨placements, _, wrote⟩ := Walk.bind_eq_ok.mp wrote
  obtain ⟨groups, _, wrote⟩ := Walk.bind_eq_ok.mp wrote
  obtain rfl := Except.ok.inj wrote
  intro name member
  obtain ⟨⟨source, number⟩, listed, rfl⟩ := List.mem_map.mp member
  exact names source (List.fst_mem_of_mem_zipIdx listed) _

variable [LawfulSourceKey σ]

/-- A document that was made from an index is one of names, under their keys, if
the naming yields a name for each source of the index. Its line count is safe. -/
theorem exists_plain_of_ofIndex {index : OriginIndex σ} {file : String} {lineCount : Option Json}
    {naming : SourceNaming σ} {made : Document σ}
    (success : ofIndex index file lineCount naming = .ok made)
    (names : ∀ source ∈ index.sourceNames, ∀ context, SourceKey.Named (naming source context)) :
    ∃ document : Document, made = document.keyed ∧ document.HasSafeLineCount := by
  obtain ⟨document, same⟩ := (named_of_ofIndex success names).exists_keyed
  have safe := hasSafeLineCount_of_ofIndex success
  rw [← same] at safe
  exact ⟨document, same.symm, safe⟩

/-- What a composition makes is a document of names, under their keys, if the
naming yields a name for each name and the mappings of the first document have
no long values. The second document may have them: its targets take no part in
the sources. -/
theorem exists_plain_of_compose {first : Document} {second : Document σ}
    {options : ComposeOptions σ} {composed : Composed σ}
    (success : compose first.keyed second options = .ok composed)
    (names : options.naming.Names) (short : ¬Vlq.HasLongValue first.mappings.toList) :
    ∃ document : Document, composed.document = document.keyed ∧ document.HasSafeLineCount := by
  obtain ⟨late, _, success⟩ := Walk.bind_eq_ok.mp success
  obtain ⟨lines, _, success⟩ := Walk.bind_eq_ok.mp success
  obtain ⟨early, read, success⟩ := Walk.bind_eq_ok.mp success
  obtain ⟨document, made, success⟩ := Walk.bind_eq_ok.mp success
  obtain rfl := Except.ok.inj success
  have table : ∀ source ∈ (first.keyed : Document σ).sources, SourceKey.Named source := by
    simp [keyed, SourceKey.named_ofName]
  have regular := (Mappings.regular_of_read short table read).redirect lines
  exact exists_plain_of_ofIndex made fun source member => names source (regular.named source member)

end Made

/-- A document that was accepted is accepted again from its text and read as the
same document, if its line count is missing or a safe integer. So is a document
that was made from an index, if the naming yields a name for each source of the
index. Therefore so is whatever a composition makes with a naming that yields
names for names, if the mappings of the first document have no value of more
digits than there are places of finite weight.

Made documents are those of a run in which sources may be missing. The
conditions say that none of them is: a name is read back as it was, and it is
the only entry that is accepted in the table. -/
theorem ofInput_text (spacing : Json.Spacing) :
    (∀ {input : Option Json} {document : Document}, ofInput input = .ok document →
      document.HasSafeLineCount →
        ofInput (some (.string (document.text Field.orderOfRead spacing))) = .ok document) ∧
    (∀ {index : OriginIndex (Option String)} {file : String} {lineCount : Option Json}
      {naming : SourceNaming (Option String)} {made : Document (Option String)},
      ofIndex index file lineCount naming = .ok made →
      (∀ source ∈ index.sourceNames, ∀ context, SourceKey.Named (naming source context)) →
      ∃ document : Document, made = document.keyed ∧
        ofInput (some (.string (made.text Field.orderOfMade spacing))) = .ok document) ∧
    (∀ {first second : Document} {options : ComposeOptions (Option String)}
      {composed : Composed (Option String)},
      compose first.keyed second.keyed options = .ok composed → options.naming.Names →
      ¬Vlq.HasLongValue first.mappings.toList →
      ∃ document : Document, composed.document = document.keyed ∧
        ofInput (some (.string (composed.document.text Field.orderOfMade spacing))) =
          .ok document) := by
  have readsBack {made : Document (Option String)}
      (plain : ∃ document : Document, made = document.keyed ∧ document.HasSafeLineCount) :
      ∃ document : Document, made = document.keyed ∧
        ofInput (some (.string (made.text Field.orderOfMade spacing))) = .ok document := by
    obtain ⟨document, rfl, safe⟩ := plain
    refine ⟨document, rfl, ?_⟩
    rw [text_keyed]
    exact ofText_text Field.complete_orderOfMade safe spacing
  refine ⟨fun {_ _} _ safe => ?_, fun {_ _ _ _ _} success names => ?_,
    fun {_ _ _ _} success names short => ?_⟩
  · exact ofText_text Field.complete_orderOfRead safe spacing
  · exact readsBack (exists_plain_of_ofIndex success names)
  · exact readsBack (exists_plain_of_compose success names short)

/-- A document of characters that are escaped and one that takes two units, with
an unknown content and an empty table. -/
def escaped : Document where
  file := "\"\\\n\t\x01😀.js"
  sources := ["a\"b.ts", ""]
  mappings := "AAAA;CCAA"
  names := []
  sourcesContent := some [none, some "\r\x1f\\😀"]
  lineCount := some 2

/-- A value that is accepted as this document. -/
def escapedValue : Json :=
  .object [("lineCount", .number 2), ("names", .array []), ("mappings", .string "AAAA;CCAA"),
    ("sourcesContent", .array [.null, .string "\r\x1f\\😀"]), ("unknown", .bool true),
    ("sources", .array [.string "a\"b.ts", .string ""]), ("version", .number 3),
    ("file", .string "\"\\\n\t\x01😀.js")]

/-- Escaped characters are read back, and so are an index and a composition. -/
theorem ofInput_text_escaped :
    ofInput (some (.string (escaped.text Field.orderOfRead .indented))) = .ok escaped ∧
      (∃ (made : Document (Option String)) (document : Document),
        ofIndex (.ofMappings [some "a.ts"] []) "\"" (some (.number 7)) .unchanged = .ok made ∧
        made = document.keyed ∧
        ofInput (some (.string (made.text Field.orderOfMade .compact))) = .ok document) ∧
      ∃ (composed : Composed (Option String)) (document : Document),
        compose typed.keyed minified.keyed {} = .ok composed ∧
        composed.document = document.keyed ∧
        ofInput (some (.string (composed.document.text Field.orderOfMade .indented))) =
          .ok document := by
  obtain ⟨ofAccepted, _, ofComposed⟩ := ofInput_text .indented
  obtain ⟨_, ofMade, _⟩ := ofInput_text .compact
  have accepted : ofInput (some escapedValue) = .ok escaped := rfl
  have safe : escaped.HasSafeLineCount := by
    rintro number ⟨⟩
    exact ⟨2, by decide, rfl⟩
  obtain ⟨made, success⟩ : ∃ made : Document (Option String),
      ofIndex (.ofMappings [some "a.ts"] []) "\"" (some (.number 7)) .unchanged = .ok made :=
    Walk.exists_of_isOk (by cbv)
  have regular : (OriginIndex.ofMappings [some "a.ts"] []).Regular :=
    OriginIndex.regular_ofMappings (by simp [SourceKey.Named, SourceKey.name?]) (by simp)
  obtain ⟨document, keyed, again⟩ := ofMade success fun source member _ =>
    regular.named source member
  obtain ⟨composed, composes⟩ : ∃ composed : Composed (Option String),
      compose typed.keyed minified.keyed {} = .ok composed :=
    Walk.exists_of_isOk (by cbv)
  have short : ¬Vlq.HasLongValue typed.mappings.toList :=
    Vlq.not_hasLongValue_of_length_le (by decide)
  obtain ⟨other, otherKeyed, otherAgain⟩ :=
    ofComposed composes SourceNaming.names_unchanged short
  exact ⟨ofAccepted accepted safe, ⟨made, document, success, keyed, again⟩,
    composed, other, composes, otherKeyed, otherAgain⟩

/-- A document whose only segment has an undefined index of a source. -/
def undefinedSource : Document where
  file := "mid.js"
  sources := ["a.js"]
  mappings := "A" ++ String.ofList (List.replicate Vlq.endlessPlace 'g') ++ "AAA"
  names := []

/-- A document that leads on from there. -/
def onward : Document where
  file := "out.js"
  sources := ["mid.js"]
  mappings := "AAAA"
  names := []

/-- What their composition makes: a table of sources with a gap. -/
def gapped : Document (Option String) where
  file := "out.js"
  sources := [some "a.js", none]
  mappings := "ACAA"
  names := []

/-- They are composed. -/
theorem exists_compose_gapped : ∃ composed : Composed (Option String),
    compose undefinedSource.keyed onward.keyed {} = .ok composed ∧ composed.document = gapped := by
  have made : ((compose undefinedSource.keyed onward.keyed {} : Except Fault
      (Composed (Option String))).toOption.map Composed.document) = some gapped := by
    decide +kernel
  obtain ⟨composed, success, document⟩ := Option.map_eq_some_iff.mp made
  exact ⟨composed, Walk.eq_ok_of_toOption success, document⟩

/-- A table with a gap is not accepted. -/
theorem ofJson_gapped :
    ofJson (gapped.toJson Field.orderOfMade) = .error (.invalidDocument .sources) := rfl

/-- Without the condition on its mappings a composition may write what is not
accepted. -/
theorem compose_undefinedSource :
    ∃ composed : Composed (Option String),
      compose undefinedSource.keyed onward.keyed {} = .ok composed ∧
      composed.document = gapped ∧
      ofInput (some (.string (composed.document.text Field.orderOfMade .indented))) =
        .error (.invalidDocument .sources) := by
  obtain ⟨composed, success, made⟩ := exists_compose_gapped
  refine ⟨composed, success, made, ?_⟩
  rw [ofInput, made, ofText_text_eq Field.complete_orderOfMade.nodup
    (hasSafeLineCount_of_eq_none rfl)]
  exact ofJson_gapped

end Document
end SourceMap

import SourceMap.Json.Reader
import SourceMap.SourceKey

/-!
# Documents

A source map document of version 3. `Document.ofJson` checks a JSON value field by
field and stops at the first one that is wrong; `Document.text` writes a document,
its fields in one of two orders.

Checking goes in the order of `Document.ofFields` and not in that of the value. A
file that is missing is the empty one; a source root, the contents of sources and
a line count may be missing. Only the last may also be null. Fields of other names
are skipped and not kept. The mappings are any string here: they are read by
`Document.index`, so a document that passes may still have a faulty text. A
document that was read has names for sources; one that was made can have a key
without a name, which is written as null and is then refused.
-/

namespace SourceMap

/-- A source map document. -/
structure Document (σ : Type := String) where
  file : String
  sources : List σ
  mappings : String
  names : List String
  sourceRoot : Option String := none
  /-- The text of each source, where it is known. -/
  sourcesContent : Option (List (Option String)) := none
  /-- The number of lines of the generated file, a natural number. -/
  lineCount : Option Number := none
deriving DecidableEq, Inhabited

namespace Document

/-- The strings of a JSON array of strings. -/
def strings? (value : Option Json) : Option (List String) :=
  (value.bind Json.items?).bind fun items => items.mapM Json.string?

/-- The content of a source: a string, or null where it is not known. -/
def content? : Json → Option (Option String)
  | .null => some none
  | .string content => some (some content)
  | _ => none

/-- The contents of sources that a JSON array holds. -/
def contents? (value : Json) : Option (List (Option String)) :=
  value.items?.bind fun items => items.mapM content?

/-- A value that a field must have, or the defect of not having it. -/
def require {α : Type} (defect : DocumentDefect) : Option α → Except Fault α
  | some value => .ok value
  | none => .error (.invalidDocument defect)

/-- Check a field that may be missing. -/
def optional {α : Type} (defect : DocumentDefect) (check : Json → Option α) :
    Option Json → Except Fault (Option α)
  | none => .ok none
  | some value => some <$> require defect (check value)

/-- The number of lines that a value is. -/
def lineCount? (value : Json) : Option Number :=
  value.number?.filter fun number => number.toNat?.isSome

/-- Check the field of the version. -/
def checkVersion (found : Option Json) : Except Fault Unit :=
  if found.bind Json.number? = some 3 then .ok () else .error (.invalidDocument (.version found))

/-- Check the field of the line count, where null stands for a missing one. -/
def checkLineCount : Option Json → Except Fault (Option Number)
  | some .null => .ok none
  | found => optional .lineCount lineCount? found

/-- Check the fields of an object as a document. A missing file is the empty
one. -/
def ofFields (field : String → Option Json) : Except Fault Document := do
  checkVersion (field "version")
  let file ← optional .file Json.string? (field "file")
  let sources ← require .sources (strings? (field "sources"))
  let names ← require .names (strings? (field "names"))
  let mappings ← require .mappings ((field "mappings").bind Json.string?)
  let sourceRoot ← optional .sourceRoot Json.string? (field "sourceRoot")
  let sourcesContent ← optional .sourcesContent contents? (field "sourcesContent")
  let lineCount ← checkLineCount (field "lineCount")
  return { file := file.getD "", sources, mappings, names, sourceRoot, sourcesContent, lineCount }

/-- Check a JSON value as a document. -/
def ofJson : Json → Except Fault Document
  | .object fields => ofFields (Fields.get? fields)
  | _ => .error (.invalidDocument .notObject)

/-- Check JSON text as a document. -/
def ofText (text : String) : Except Fault Document :=
  match Json.ofText? text with
  | some value => ofJson value
  | none => .error (.invalidDocument .notJson)

/-- Check a value as a document: a string as JSON text, anything else as the
value itself. Nothing at all is no document. -/
def ofInput : Option Json → Except Fault Document
  | none => .error (.invalidDocument .notObject)
  | some (.string text) => ofText text
  | some value => ofJson value

/-- The fields of a document. -/
inductive Field where
  | version
  | file
  | sources
  | mappings
  | names
  | sourceRoot
  | sourcesContent
  | lineCount
deriving DecidableEq

/-- The name of a field. -/
def Field.key : Field → String
  | .version => "version"
  | .file => "file"
  | .sources => "sources"
  | .mappings => "mappings"
  | .names => "names"
  | .sourceRoot => "sourceRoot"
  | .sourcesContent => "sourcesContent"
  | .lineCount => "lineCount"

/-- The fields of a document that was read, in the order in which they are
written. -/
def Field.orderOfRead : List Field :=
  [.version, .file, .sources, .mappings, .names, .sourceRoot, .sourcesContent, .lineCount]

/-- The fields of a document that was made from an index, in the order in which
they are written. -/
def Field.orderOfMade : List Field :=
  [.version, .file, .sources, .lineCount, .mappings, .names, .sourceRoot, .sourcesContent]

variable {σ : Type} [SourceKey σ]

/-- The document with the keys of its sources in place of their names. -/
def keyed (document : Document) : Document σ where
  file := document.file
  sources := document.sources.map SourceKey.ofName
  mappings := document.mappings
  names := document.names
  sourceRoot := document.sourceRoot
  sourcesContent := document.sourcesContent
  lineCount := document.lineCount

/-- The value of a field, if the document has it. -/
def get? (document : Document σ) : Field → Option Json
  | .version => some (.number 3)
  | .file => some (.string document.file)
  | .sources => some (.array (document.sources.map SourceKey.json))
  | .mappings => some (.string document.mappings)
  | .names => some (.array (document.names.map .string))
  | .sourceRoot => document.sourceRoot.map .string
  | .sourcesContent => document.sourcesContent.map fun contents =>
    .array (contents.map fun content => (content.map Json.string).getD .null)
  | .lineCount => document.lineCount.map .number

/-- The JSON object of a document, its fields in the given order. -/
def toJson (order : List Field) (document : Document σ) : Json :=
  .object (order.filterMap fun field => (document.get? field).map (field.key, ·))

/-- The JSON text of a document, its fields in the given order. -/
def text (order : List Field) (spacing : Json.Spacing) (document : Document σ) : String :=
  (document.toJson order).text spacing

/-- The comment that ties a generated file to the file of its source map. -/
def comment (mapName : String) : String := "//# sourceMappingURL=" ++ mapName

end Document
end SourceMap

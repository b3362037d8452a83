import SourceMap.Document.Basic
import SourceMap.Mappings.Reader
import SourceMap.Mappings.Writer
import SourceMap.OriginIndex.Redirect
import SourceMap.Path.SourceNaming

/-!
# Documents and indexes

`Document.index` reads the mappings of a document and `Document.ofIndex` writes an
index as a document. `Document.compose` puts two documents one after the other:
the first leads from original sources to an intermediate file and the second from
that file to the final output, so the result leads from the original sources to
the final output.

The second document is read before the first, and its intermediate source is
looked for before the first is read; so of two faulty documents the second one's
fault is met. What is written has neither a source root nor contents of sources,
whatever the two documents have.
-/

namespace SourceMap
namespace Document

variable {σ : Type} [DecidableEq σ] [SourceKey σ]

/-- The index that the mappings of a document describe. -/
def index (document : Document σ) : Except Fault (OriginIndex σ) :=
  Mappings.read document.mappings document.sources document.names

/-- Check the line count of a document that is to be written, if there is one. -/
def lineCoordinate : Option Json → Except Fault (Option Nat)
  | none => .ok none
  | found => (Placement.coordinate .lineCount found).map some

/-- Write an index as a document. The line count may be missing; any value that
is there is checked, before the index is. -/
def ofIndex (index : OriginIndex σ) (file : String) (lineCount : Option Json)
    (naming : SourceNaming σ) : Except Fault (Document σ) := do
  let lineCount ← lineCoordinate lineCount
  let written ← Mappings.write index
  return {
    file
    sources := written.sources.zipIdx.map fun (source, number) => naming source ⟨file, number⟩
    mappings := written.text
    names := written.names
    lineCount := lineCount.map .ofNat }

/-- What a caller may ask of a composition. -/
structure ComposeOptions (σ : Type := String) where
  /-- The generated file; that of the second document if missing. -/
  file : Option String := none
  /-- The line count; that of the second document if missing or null. -/
  lineCount : Option Json := none
  naming : SourceNaming σ := .unchanged
  /-- The source of the second document that is the intermediate file; its only
  one if missing. -/
  intermediate : Option σ := none

/-- A composed document, how many generated positions it holds and how many
positions of the first document were dropped. -/
structure Composed (σ : Type := String) where
  document : Document σ
  kept : Nat
  dropped : Nat

/-- The value asked for, unless it is missing or null. -/
def ComposeOptions.lineCountOr (options : ComposeOptions σ) (default : Option Number) :
    Option Json :=
  match options.lineCount with
  | none | some .null => default.map .number
  | found => found

/-- Compose two documents. Of their mappings the second are read first. -/
def compose (first second : Document σ) (options : ComposeOptions σ) :
    Except Fault (Composed σ) := do
  let lines ← (← second.index).linesOf options.intermediate
  let redirected := (← first.index).redirectCounted lines
  let document ← ofIndex redirected.index (options.file.getD second.file)
    (options.lineCountOr second.lineCount) options.naming
  return { document, kept := redirected.kept, dropped := redirected.dropped }

end Document
end SourceMap

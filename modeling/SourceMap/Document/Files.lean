import SourceMap.Console.Message
import SourceMap.Document.Composition
import SourceMap.FileTree

/-!
# Documents in files

Reading a document from a file, writing one, and composing two files into a third.
A composition changes the tree only if it succeeds; a missing input or a fault in
a map is reported on the console, so that a build can go on with its other
outputs.

What is not reported is passed on to the caller: a fault of the file system in
writing, and a fault that is not one of a source map. Both inputs are read before
anything is written, so the output may be one of them. Nobody else changes the
tree in the meantime.
-/

namespace SourceMap
namespace Document

/-- Read a document from a file. A file that cannot be read is no document. -/
def load (tree : FileTree) (directory : AbsolutePath) (path : String) :
    Except Fault (Option Document) :=
  match tree.read? directory path with
  | none => .ok none
  | some text => some <$> ofText text

/-- Write a document to a file, on a line of its own. -/
def save {σ : Type} [SourceKey σ] (tree : FileTree) (directory : AbsolutePath) (path : String)
    (order : List Field) (spacing : Json.Spacing) (document : Document σ) :
    FileTree × Except FileFault Unit :=
  tree.write directory path (document.text order spacing ++ "\n")

/-- What a caller may ask of a composition of files. -/
structure FileOptions (σ : Type := String) extends ComposeOptions σ where
  /-- The map from the original sources to the intermediate file. -/
  firstPath : String
  /-- The map from the intermediate file to the final output. -/
  secondPath : String
  outputPath : String
  spacing : Json.Spacing := .indented
  /-- The label on the console. -/
  scope : String := "sourcemap"

/-- What a composition of files does not report on the console but passes on to
its caller. -/
inductive FileFailure where
  | file (fault : FileFault)
  /-- A fault that is not one of a source map. -/
  | other (fault : Fault)

/-- What a composition of files comes to: the composed document and where it was
written, if there was one; the tree after it; and what it printed. -/
structure FileOutcome (σ : Type := String) where
  result : Except FileFailure (Option (Composed σ × AbsolutePath))
  tree : FileTree
  console : List Console.Line

variable {σ : Type} [DecidableEq σ] [SourceKey σ]

/-- The composition of two files as far as the output: the missing input or the
composed document. -/
def composeInputs (tree : FileTree) (first second : AbsolutePath) (options : FileOptions σ) :
    Except Fault (AbsolutePath ⊕ Composed σ) := do
  let some before ← load tree [] first.text | return .inl first
  let some after ← load tree [] second.text | return .inl second
  let composed ← compose before.keyed after.keyed options.toComposeOptions
  return .inr composed

/-- Compose two files into a third. Paths are read from a directory. -/
def composeFiles (tree : FileTree) (directory : AbsolutePath) (options : FileOptions σ) :
    FileOutcome σ :=
  let first := AbsolutePath.resolve directory options.firstPath
  let second := AbsolutePath.resolve directory options.secondPath
  let output := AbsolutePath.resolve directory options.outputPath
  match composeInputs tree first second options with
  | .error fault =>
    if fault.code?.isSome then
      { result := .ok none
        tree
        console := Console.error options.scope ("Could not compose " ++ output.text)
          (some (Console.faultHeadline fault)) }
    else { result := .error (.other fault), tree, console := [] }
  | .ok (.inl missing) =>
    { result := .ok none
      tree
      console := [Console.skipped options.scope ("Source map not found: " ++ missing.text)] }
  | .ok (.inr composed) =>
    match save tree [] output.text Field.orderOfMade options.spacing composed.document with
    | (tree, .error fault) => { result := .error (.file fault), tree, console := [] }
    | (tree, .ok ()) =>
      { result := .ok (some (composed, output))
        tree
        console := [Console.composed options.scope output.text (.ofNat composed.kept)
          (.ofNat composed.dropped)] }

end Document
end SourceMap

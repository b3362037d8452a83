import SourceMap.Document.Files
import SourceMap.Proofs.Document.Serialization
import SourceMap.Proofs.FileTree
import SourceMap.Proofs.Json.Surrogates

/-!
# Compositions of files

A composition of files is all or nothing. Everything that can be wrong with a
source map is found before the first directory is made, so a composition that
comes to nothing leaves the tree as it was; one that comes to a document changes
the path to its output and nothing else, and what is read there is the document.
Only what is not wrong with a source map is passed on to the caller.

There are five ways in which a composition ends, listed in `Ends`, and the main
result reads them off one by one. Sources may be missing in it: keys are optional
names, so a composition that leads to a missing source runs to its end like any
other. What such a run writes is not accepted when it is loaded, which is why that
part has a condition on the mappings of the first text. The runs are for texts in
which no half of a surrogate pair stands alone; the reader of JSON text puts
another character in place of such a half.
-/

namespace SourceMap
namespace Document

/-- Whether a check refuses nothing but invalid documents. -/
def ChecksDocument {α : Type} (check : Except Fault α) : Prop :=
  ∀ fault, check = .error fault → ∃ defect, fault = .invalidDocument defect

namespace ChecksDocument

variable {α β : Type}

/-- A check that ends refuses nothing. -/
theorem ok (value : α) : ChecksDocument (.ok value) := fun _ failure => nomatch failure

/-- A check that finds a defect refuses an invalid document. -/
theorem defect (defect : DocumentDefect) :
    ChecksDocument (.error (.invalidDocument defect) : Except Fault α) :=
  fun _ failure => ⟨defect, (Except.error.inj failure).symm⟩

/-- Two checks one after the other. -/
theorem bind {check : Except Fault α} {next : α → Except Fault β} (first : ChecksDocument check)
    (second : ∀ value, ChecksDocument (next value)) : ChecksDocument (check >>= next) := by
  intro fault failure
  rcases Walk.bind_eq_error.mp failure with failure | ⟨value, _, failure⟩
  · exact first fault failure
  · exact second value fault failure

/-- A required field. -/
theorem require (defect : DocumentDefect) (value : Option α) :
    ChecksDocument (Document.require defect value) := by
  cases value with
  | none => exact .defect defect
  | some value => exact .ok value

/-- A field that may be missing. -/
theorem optional (defect : DocumentDefect) (check : Json → Option α) (found : Option Json) :
    ChecksDocument (Document.optional defect check found) := by
  cases found with
  | none => exact .ok none
  | some value =>
    intro fault failure
    exact require defect (check value) fault (Walk.map_eq_error.mp failure)

/-- The version. -/
theorem version (found : Option Json) : ChecksDocument (checkVersion found) := by
  unfold checkVersion
  split
  · exact .ok ()
  · exact .defect _

/-- The line count. -/
theorem lineCount (found : Option Json) : ChecksDocument (checkLineCount found) := by
  unfold checkLineCount
  split
  · exact .ok none
  · exact .optional _ _ _

/-- The fields of an object. -/
theorem ofFields (field : String → Option Json) : ChecksDocument (Document.ofFields field) :=
  (version _).bind fun _ => (optional _ _ _).bind fun _ => (require _ _).bind fun _ =>
    (require _ _).bind fun _ => (require _ _).bind fun _ => (optional _ _ _).bind fun _ =>
      (optional _ _ _).bind fun _ => (lineCount _).bind fun _ => ok _

/-- A text. -/
theorem ofText (text : String) : ChecksDocument (Document.ofText text) := by
  unfold Document.ofText
  split
  · unfold ofJson
    split
    · exact ofFields _
    · exact .defect _
  · exact .defect _

end ChecksDocument

section Keys

variable {σ : Type} [DecidableEq σ] [SourceKey σ]

/-- The composition of two texts. -/
def composeTexts (first second : String) (options : ComposeOptions σ) :
    Except Fault (Composed σ) := do
  compose (← ofText first).keyed (← ofText second).keyed options

/-- The texts that a composition of files reads. -/
structure ReadsTexts (tree : FileTree) (directory : AbsolutePath) (options : FileOptions σ)
    (first second : String) : Prop where
  first : tree.read? [] (AbsolutePath.resolve directory options.firstPath).text = some first
  second : tree.read? [] (AbsolutePath.resolve directory options.secondPath).text = some second

variable {tree : FileTree} {directory : AbsolutePath} {options : FileOptions σ}
  {first second : String} {composed : Composed σ} {fault : Fault}

/-- A text that is read is checked. -/
theorem load_of_read? {path text : String} (read : tree.read? directory path = some text) :
    load tree directory path = some <$> ofText text := by
  rw [load, read]

/-- A text that cannot be read is no document. -/
theorem load_of_not_read? {path : String} (unread : tree.read? directory path = none) :
    load tree directory path = .ok none := by
  rw [load, unread]

/-- If both texts are read, the composition of the inputs is that of the texts. -/
theorem ReadsTexts.composeInputs_eq (reads : ReadsTexts tree directory options first second) :
    composeInputs tree (AbsolutePath.resolve directory options.firstPath)
      (AbsolutePath.resolve directory options.secondPath) options =
        (composeTexts first second options.toComposeOptions).map .inr := by
  rw [composeInputs, composeTexts, load_of_read? reads.first, load_of_read? reads.second]
  cases ofText first with
  | error fault => rfl
  | ok before =>
    cases ofText second with
    | error fault => rfl
    | ok after =>
      change compose before.keyed after.keyed _ >>= _ =
        (compose before.keyed after.keyed options.toComposeOptions).map _
      cases compose before.keyed after.keyed options.toComposeOptions <;> rfl

/-- If a text is not read, the composition of the inputs comes to a missing
input or to an invalid document. -/
theorem composeInputs_of_forall_not_readsTexts
    (unread : ∀ first second, ¬ ReadsTexts tree directory options first second) :
    (∃ missing, composeInputs tree (AbsolutePath.resolve directory options.firstPath)
      (AbsolutePath.resolve directory options.secondPath) options = .ok (.inl missing)) ∨
    ∃ defect, composeInputs tree (AbsolutePath.resolve directory options.firstPath)
      (AbsolutePath.resolve directory options.secondPath) options =
        .error (.invalidDocument defect) := by
  rw [composeInputs]
  cases firstRead : tree.read? [] (AbsolutePath.resolve directory options.firstPath).text with
  | none =>
    rw [load_of_not_read? firstRead]
    exact Or.inl ⟨_, rfl⟩
  | some first =>
    rw [load_of_read? firstRead]
    cases checked : ofText first with
    | error fault =>
      obtain ⟨defect, rfl⟩ := ChecksDocument.ofText first fault checked
      exact Or.inr ⟨defect, rfl⟩
    | ok before =>
      cases secondRead : tree.read? [] (AbsolutePath.resolve directory options.secondPath).text with
      | none =>
        rw [load_of_not_read? secondRead]
        exact Or.inl ⟨_, rfl⟩
      | some second => exact absurd ⟨firstRead, secondRead⟩ (unread first second)

/-- A composition whose inputs cannot be read comes to nothing. -/
theorem composeFiles_of_forall_not_readsTexts
    (unread : ∀ first second, ¬ ReadsTexts tree directory options first second) :
    (composeFiles tree directory options).result = .ok none ∧
      (composeFiles tree directory options).tree = tree := by
  unfold composeFiles
  rcases composeInputs_of_forall_not_readsTexts unread with ⟨missing, found⟩ | ⟨defect, found⟩
  · simp only [found, and_self]
  · simp only [found, Fault.code?, Option.isSome_some, if_true, and_self]

/-- A composition that fails before anything is written leaves the tree as it
was. A fault of a source map comes to nothing, any other is passed on. -/
theorem ReadsTexts.composeFiles_of_error (reads : ReadsTexts tree directory options first second)
    (failure : composeTexts first second options.toComposeOptions = .error fault) :
    (composeFiles tree directory options).result =
        (if fault.code?.isSome then .ok none else .error (.other fault)) ∧
      (composeFiles tree directory options).tree = tree := by
  unfold composeFiles
  simp only [reads.composeInputs_eq, failure, Except.map]
  split <;> exact ⟨rfl, rfl⟩

/-- A composition that yields a document comes to what writing it comes to. -/
theorem ReadsTexts.composeFiles_of_ok (reads : ReadsTexts tree directory options first second)
    (success : composeTexts first second options.toComposeOptions = .ok composed)
    {after : FileTree} {done : Except FileFault Unit}
    (saved : save tree [] (AbsolutePath.resolve directory options.outputPath).text Field.orderOfMade
      options.spacing composed.document = (after, done)) :
    (composeFiles tree directory options).result =
        (match done with
        | .error fault => .error (.file fault)
        | .ok () => .ok (some (composed, AbsolutePath.resolve directory options.outputPath))) ∧
      (composeFiles tree directory options).tree = after := by
  unfold composeFiles
  simp only [reads.composeInputs_eq, success, Except.map, saved]
  cases done with
  | error fault => exact ⟨rfl, rfl⟩
  | ok => exact ⟨rfl, rfl⟩

/-- What a composition of files can come to, and the tree after it. The cases
exclude one another, and only the last two of them have tried to write anything. -/
inductive Ends (tree : FileTree) (directory : AbsolutePath) (options : FileOptions σ) :
    Except FileFailure (Option (Composed σ × AbsolutePath)) → FileTree → Prop
  /-- An input cannot be read. -/
  | unread (unread : ∀ first second, ¬ ReadsTexts tree directory options first second) :
      Ends tree directory options (.ok none) tree
  /-- Something is wrong with a source map. -/
  | refused {first second : String} {fault : Fault}
      (reads : ReadsTexts tree directory options first second)
      (failure : composeTexts first second options.toComposeOptions = .error fault)
      (coded : fault.code?.isSome) : Ends tree directory options (.ok none) tree
  /-- Something else is wrong. -/
  | failed {first second : String} {fault : Fault}
      (reads : ReadsTexts tree directory options first second)
      (failure : composeTexts first second options.toComposeOptions = .error fault)
      (uncoded : fault.code? = none) : Ends tree directory options (.error (.other fault)) tree
  /-- The output cannot be written. -/
  | unwritten {first second : String} {composed : Composed σ} {fault : FileFault} {after : FileTree}
      (reads : ReadsTexts tree directory options first second)
      (success : composeTexts first second options.toComposeOptions = .ok composed)
      (unsaved : save tree [] (AbsolutePath.resolve directory options.outputPath).text
        Field.orderOfMade options.spacing composed.document = (after, .error fault)) :
      Ends tree directory options (.error (.file fault)) after
  /-- The output is written. -/
  | written {first second : String} {composed : Composed σ} {after : FileTree}
      (reads : ReadsTexts tree directory options first second)
      (success : composeTexts first second options.toComposeOptions = .ok composed)
      (saved : save tree [] (AbsolutePath.resolve directory options.outputPath).text
        Field.orderOfMade options.spacing composed.document = (after, .ok ())) :
      Ends tree directory options
        (.ok (some (composed, AbsolutePath.resolve directory options.outputPath))) after

/-- Every composition of files comes to one of these: either an input cannot be
read, or the texts are composed, and then the result is refused, saved or not
saved. -/
theorem ends_composeFiles (tree : FileTree) (directory : AbsolutePath) (options : FileOptions σ) :
    Ends tree directory options (composeFiles tree directory options).result
      (composeFiles tree directory options).tree := by
  by_cases readable : ∃ first second, ReadsTexts tree directory options first second
  · obtain ⟨first, second, reads⟩ := readable
    cases composition : composeTexts first second options.toComposeOptions with
    | error fault =>
      obtain ⟨result, unchanged⟩ := reads.composeFiles_of_error composition
      rw [result, unchanged]
      split
      · rename_i coded
        exact .refused reads composition coded
      · rename_i uncoded
        exact .failed reads composition (Option.not_isSome_iff_eq_none.mp uncoded)
    | ok composed =>
      cases saved : save tree [] (AbsolutePath.resolve directory options.outputPath).text
        Field.orderOfMade options.spacing composed.document with
      | mk after done =>
        obtain ⟨result, changed⟩ := reads.composeFiles_of_ok composition saved
        rw [result, changed]
        cases done with
        | error fault => exact .unwritten reads composition saved
        | ok => exact .written reads composition saved
  · push Not at readable
    obtain ⟨result, unchanged⟩ := composeFiles_of_forall_not_readsTexts readable
    rw [result, unchanged]
    exact .unread readable

/-- What the result of a composition of files can be. -/
theorem exists_ends {result : Except FileFailure (Option (Composed σ × AbsolutePath))}
    (found : (composeFiles tree directory options).result = result) :
    ∃ after, Ends tree directory options result after :=
  ⟨_, found ▸ ends_composeFiles tree directory options⟩

variable {after : FileTree} {place : AbsolutePath}

/-- A composition that comes to nothing leaves the tree as it was. -/
theorem Ends.tree_eq (ends : Ends tree directory options (.ok none) after) : after = tree := by
  cases ends with
  | unread => rfl
  | refused => rfl

/-- A document that was written to a file is loaded from there. -/
theorem load_of_wrote {document : Document} {order : List Field} (complete : Field.Complete order)
    (safe : document.HasSafeLineCount) {spacing : Json.Spacing} (normal : place.Normal)
    (wrote : tree.Wrote after place (document.text order spacing ++ "\n")) :
    load after [] place.text = .ok (some document) := by
  have ends : Json.EndsNumber ['\n'] := Json.endsNumber_cons (by decide) []
  have read : ofText (document.text order spacing ++ "\n") = .ok document :=
    ofText_text_append complete safe spacing rfl ends
  rw [load_of_read? (wrote.read?_text normal), read]
  rfl

/-- Whether the mappings of a text, if it is a document, have no value of more
digits than there are places of finite weight. -/
def ShortText (text : String) : Prop :=
  ∀ document, ofText text = .ok document → ¬Vlq.HasLongValue document.mappings.toList

/-- What is written of a composition can be loaded, if the naming yields names
for names and the first text has no long values. Then no source is missing, and
the document is one of names. -/
theorem exists_load_of_wrote [LawfulSourceKey σ]
    (success : composeTexts first second options.toComposeOptions = .ok composed)
    (names : options.naming.Names) (short : ShortText first) (normal : place.Normal)
    (wrote : tree.Wrote after place
      (composed.document.text Field.orderOfMade options.spacing ++ "\n")) :
    ∃ document : Document, composed.document = document.keyed ∧
      load after [] place.text = .ok (some document) := by
  obtain ⟨before, read, composition⟩ := Walk.bind_eq_ok.mp success
  obtain ⟨next, _, composition⟩ := Walk.bind_eq_ok.mp composition
  obtain ⟨document, same, safe⟩ := exists_plain_of_compose composition names (short before read)
  rw [same, text_keyed] at wrote
  exact ⟨document, same, load_of_wrote Field.complete_orderOfMade safe normal wrote⟩

/-- A composition that comes to a document composes the two texts and writes the
document to the output. It can be loaded from there if the naming yields names
for names and the first text has no long values. -/
theorem Ends.wrote [LawfulSourceKey σ] (normal : directory.Normal)
    (ends : Ends tree directory options (.ok (some (composed, place))) after) :
    place = AbsolutePath.resolve directory options.outputPath ∧
      tree.Wrote after place (composed.document.text Field.orderOfMade options.spacing ++ "\n") ∧
      ∃ first second, ReadsTexts tree directory options first second ∧
        composeTexts first second options.toComposeOptions = .ok composed ∧
        (options.naming.Names → ShortText first →
          ∃ document : Document, composed.document = document.keyed ∧
            load after [] place.text = .ok (some document)) := by
  cases ends with
  | written reads success saved =>
    have normalOutput := normal.resolve options.outputPath
    have wrote := FileTree.wrote_of_write normalOutput saved
    exact ⟨rfl, wrote, _, _, reads, success, fun names short =>
      exists_load_of_wrote success names short normalOutput wrote⟩

/-- A composition comes to nothing exactly if an input cannot be read or
something is wrong with a source map. -/
theorem composeFiles_result_eq_ok_none_iff :
    (composeFiles tree directory options).result = .ok none ↔
      (∀ first second, ¬ ReadsTexts tree directory options first second) ∨
      ∃ first second fault, ReadsTexts tree directory options first second ∧
        composeTexts first second options.toComposeOptions = .error fault ∧
          fault.code?.isSome := by
  constructor
  · intro nothing
    obtain ⟨after, ends⟩ := exists_ends nothing
    cases ends with
    | unread unread => exact Or.inl unread
    | refused reads failure coded => exact Or.inr ⟨_, _, _, reads, failure, coded⟩
  · rintro (unread | ⟨first, second, fault, reads, failure, coded⟩)
    · exact (composeFiles_of_forall_not_readsTexts unread).1
    · rw [(reads.composeFiles_of_error failure).1, if_pos coded]

/-- What a composition passes on is a fault that is not one of a source map, or
one of the file system when the output is written. -/
theorem composeFiles_result_eq_error_iff {failure : FileFailure} :
    (composeFiles tree directory options).result = .error failure ↔
      ∃ first second, ReadsTexts tree directory options first second ∧
        ((∃ fault, composeTexts first second options.toComposeOptions = .error fault ∧
          fault.code? = none ∧ failure = .other fault) ∨
        ∃ composed after fault, composeTexts first second options.toComposeOptions = .ok composed ∧
          save tree [] (AbsolutePath.resolve directory options.outputPath).text Field.orderOfMade
            options.spacing composed.document = (after, .error fault) ∧ failure = .file fault) := by
  constructor
  · intro passed
    obtain ⟨after, ends⟩ := exists_ends passed
    cases ends with
    | failed reads failure uncoded =>
      exact ⟨_, _, reads, Or.inl ⟨_, failure, uncoded, rfl⟩⟩
    | unwritten reads success unsaved =>
      exact ⟨_, _, reads, Or.inr ⟨_, _, _, success, unsaved, rfl⟩⟩
  · rintro ⟨first, second, reads, ⟨fault, failure, uncoded, rfl⟩ | ⟨composed, after, fault, success,
      unsaved, rfl⟩⟩
    · rw [(reads.composeFiles_of_error failure).1, uncoded]
      rfl
    · rw [(reads.composeFiles_of_ok success unsaved).1]

end Keys

/-- What the runs of a composition of files stand for. The directory is given
without empty names and dots. In the texts that are read no half of a surrogate
pair stands alone: the reader cannot tell such halves from one another. No proof
needs the second condition; it says for which texts the reader finds what they
spell. -/
structure Covered (tree : FileTree) (directory : AbsolutePath)
    (options : FileOptions (Option String)) : Prop where
  normal : directory.Normal
  paired : ∀ first second, ReadsTexts tree directory options first second →
    Json.PairedText first ∧ Json.PairedText second

/-- A directory that holds two maps. -/
def mapTree : FileTree where
  nodes := [(["maps"], .directory),
    (["maps", "typed.map"], .file (typed.text Field.orderOfRead .compact)),
    (["maps", "minified.map"], .file (minified.text Field.orderOfRead .indented))]

/-- The composition of these maps into a directory that is missing. -/
def intoMissing : FileOptions (Option String) where
  firstPath := "typed.map"
  secondPath := "./minified.map"
  outputPath := "../out/composed.map"

/-- The path to the directory of the maps is normal. -/
theorem normal_maps : AbsolutePath.Normal ["maps"] := by
  intro name member
  obtain rfl := List.mem_singleton.mp member
  exact ⟨by decide, by decide, by decide, by decide⟩

/-- The texts of the maps are read. -/
theorem readsTexts_intoMissing : ReadsTexts mapTree ["maps"] intoMissing
    (typed.text Field.orderOfRead .compact) (minified.text Field.orderOfRead .indented) :=
  ⟨rfl, rfl⟩

/-- The texts of the maps are composed. -/
theorem composes_intoMissing : ∃ composed, composeTexts (typed.text Field.orderOfRead .compact)
    (minified.text Field.orderOfRead .indented) intoMissing.toComposeOptions = .ok composed := by
  obtain ⟨composed, success⟩ : ∃ composed : Composed (Option String),
      compose typed.keyed minified.keyed intoMissing.toComposeOptions = .ok composed :=
    Walk.exists_of_isOk (by cbv)
  refine ⟨composed, ?_⟩
  rw [composeTexts, ofText_text Field.complete_orderOfRead (hasSafeLineCount_of_eq_none rfl),
    ofText_text Field.complete_orderOfRead (hasSafeLineCount_of_eq_none rfl)]
  exact success

/-- The texts of the maps have no halves of surrogate pairs, alone or not. -/
theorem covered_intoMissing : Covered mapTree ["maps"] intoMissing where
  normal := normal_maps
  paired := by
    intro first second reads
    obtain rfl := Option.some.inj (readsTexts_intoMissing.first.symm.trans reads.first)
    obtain rfl := Option.some.inj (readsTexts_intoMissing.second.symm.trans reads.second)
    decide +kernel

/-- A directory that holds two maps, of which the first has an undefined index
of a source. -/
def undefinedTree : FileTree where
  nodes := [(["maps"], .directory),
    (["maps", "typed.map"], .file (undefinedSource.text Field.orderOfRead .compact)),
    (["maps", "minified.map"], .file (onward.text Field.orderOfRead .compact))]

end Document
end SourceMap

import SourceMap.Document.Composition
import SourceMap.Proofs.Mappings.Reading
import SourceMap.Proofs.Mappings.RoundTrip
import SourceMap.Proofs.OriginIndex.Redirecting

/-!
# The meaning of a composition

A composition reads both documents, redirects the first index through the
intermediate file of the second and writes the result. Read again, the composed
document holds at an origin what the second document holds at the targets that the
first one has there. The sources are those of the first, under their names in the
output, and two that come to share a name there are joined in the order of the
first.

The naming is a function, and any function will do. Nothing is said about a
composition that fails, which can be for a fault in either text, for an
intermediate file that is not there, or for a column that cannot be written. The
sources are plain names here; a document whose mappings lead to a missing source
is a failure of its first step.
-/

namespace SourceMap
namespace Document

/-- Whether the tables of a document are no longer than the greatest index that
can be written allows. A table in memory always is that short. -/
structure Sized (document : Document) : Prop where
  sources : document.sources.length ≤ Coordinate.greatest + 1
  names : document.names.length ≤ Coordinate.greatest + 1

/-- What a composed document is made of: the index of the first document, that
of the second and the intermediate file in it, with its lines. Results on
compositions are proved from these parts, so that `compose` is taken apart once. -/
structure Composes (first second : Document) (options : ComposeOptions) (document : Document)
    (early late : OriginIndex) (file : String) (lines : LineTable) : Prop where
  firstRead : first.index = .ok early
  secondRead : second.index = .ok late
  found : late.lines? file = some lines
  chosen : options.intermediate = some file ∨
    options.intermediate = none ∧ second.sources.eraseDups = [file]
  written : ofIndex (early.redirect lines) (options.file.getD second.file)
    (options.lineCountOr second.lineCount) options.naming = .ok document

/-- A composition that succeeds is made of such parts. It counts the targets
that are left and those of the first index that lead nowhere. -/
theorem exists_composes_counted {first second : Document} {options : ComposeOptions}
    {composed : Composed} (success : compose first second options = .ok composed) :
    ∃ early late file lines,
      Composes first second options composed.document early late file lines ∧
      composed.kept = (early.redirect lines).count ∧
      composed.dropped =
        (early.targets.filter fun target => (lines.onward target).isEmpty).length := by
  obtain ⟨late, secondRead, success⟩ := Walk.bind_eq_ok.mp success
  obtain ⟨lines, selected, success⟩ := Walk.bind_eq_ok.mp success
  obtain ⟨early, firstRead, success⟩ := Walk.bind_eq_ok.mp success
  obtain ⟨document, written, success⟩ := Walk.bind_eq_ok.mp success
  obtain rfl := Except.ok.inj success
  obtain ⟨file, found, chosen⟩ := OriginIndex.linesOf_eq_ok selected
  rw [Mappings.sourceNames_of_read secondRead] at chosen
  exact ⟨early, late, file, lines, ⟨firstRead, secondRead, found, chosen, written⟩,
    early.kept_redirectCounted lines, congrArg Redirected.dropped (early.redirectCounted_eq lines)⟩

/-- A composition that succeeds is made of such parts. -/
theorem composes_of_compose {first second : Document} {options : ComposeOptions}
    {composed : Composed} (success : compose first second options = .ok composed) :
    ∃ early late file lines,
      Composes first second options composed.document early late file lines := by
  obtain ⟨early, late, file, lines, composes, _⟩ := exists_composes_counted success
  exact ⟨early, late, file, lines, composes⟩

namespace Composes

variable {first second document : Document} {options : ComposeOptions}
  {early late : OriginIndex} {file : String} {lines : LineTable}

/-- The index of the first document is sound. -/
theorem sound (composes : Composes first second options document early late file lines) :
    early.Sound := (OriginIndex.built_read composes.firstRead).sound

/-- The sources of the redirected index are those of the first document, each
once. -/
theorem sourceNames (composes : Composes first second options document early late file lines) :
    (early.redirect lines).sourceNames = first.sources.eraseDups := by
  rw [composes.sound.sourceNames_redirect, Mappings.sourceNames_of_read composes.firstRead]

/-- The intermediate file is a source of the second document. -/
theorem file_mem (composes : Composes first second options document early late file lines) :
    file ∈ second.sources := by
  have present : file ∈ late.sourceNames := by
    rw [OriginIndex.mem_sourceNames_iff, composes.found, Option.isSome_some]
  rw [Mappings.sourceNames_of_read composes.secondRead] at present
  exact List.mem_eraseDups.mp present

/-- The names of the redirected index are in the table of the second document. -/
theorem names (composes : Composes first second options document early late file lines) :
    ∀ name ∈ (early.redirect lines).targets.filterMap Target.name?, name ∈ second.names := by
  intro name member
  obtain ⟨line, column, target, held, named⟩ :=
    OriginIndex.exists_of_mem_names_redirect composes.found member
  obtain ⟨generatedLine, generatedColumn, given, rfl, listed⟩ :=
    Mappings.placed_of_read composes.secondRead held
  apply listed
  cases given with
  | none => simp [Target.name?, Target.placed] at named
  | some text => simpa [Target.name?, Target.placed, Json.string?] using named

/-- The document is what writing the redirected index gave: its sources are
named in their order, its table of names is that of the index, and its mappings
are read back as those of the index, sorted by generated position. -/
theorem index_eq (composes : Composes first second options document early late file lines)
    (firstSized : first.Sized) (secondSized : second.Sized) :
    document.file = options.file.getD second.file ∧
      document.sources = first.sources.eraseDups.zipIdx.map
        (fun (source, number) => options.naming source ⟨document.file, number⟩) ∧
      document.names = (early.redirect lines).names ∧
      document.index = .ok (.ofMappings document.sources
        (sortBy Mapping.position ((early.redirect lines).mappingsUnder document.sources))) := by
  obtain ⟨lineCount, _, success⟩ := Walk.bind_eq_ok.mp composes.written
  obtain ⟨written, wrote, success⟩ := Walk.bind_eq_ok.mp success
  obtain rfl := Except.ok.inj success
  have valid : (early.redirect lines).check = .ok () := by
    obtain ⟨placements, placed, _⟩ := Walk.bind_eq_ok.mp wrote
    exact Walk.map_eq_ok.mpr ⟨placements, placed, rfl⟩
  have sourcesFit : (early.redirect lines).sourceNames.length ≤ Coordinate.greatest + 1 := by
    rw [composes.sourceNames]
    exact (length_eraseDups_le fun _ => id).trans firstSized.sources
  have namesFit : (early.redirect lines).names.length ≤ Coordinate.greatest + 1 :=
    (length_eraseDups_le composes.names).trans secondSized.names
  have sources : written.sources = first.sources.eraseDups := by
    obtain ⟨again, wroteAgain, sources, _⟩ :=
      Mappings.read_write valid sourcesFit namesFit rfl
    obtain rfl := Except.ok.inj (wrote.symm.trans wroteAgain)
    rw [sources, composes.sourceNames]
  have length : (written.sources.zipIdx.map fun (source, number) =>
      options.naming source ⟨options.file.getD second.file, number⟩).length =
        (early.redirect lines).sourceNames.length := by
    simp [sources, composes.sourceNames]
  obtain ⟨again, wroteAgain, _, names, readBack⟩ :=
    Mappings.read_write valid sourcesFit namesFit length
  obtain rfl := Except.ok.inj (wrote.symm.trans wroteAgain)
  exact ⟨rfl, by rw [sources], names, readBack⟩

end Composes

/-- What a composed document means. Each of its sources stands for one of the
first document; at an origin it holds, for the sources of that name in their
order, what the second document holds at each of the targets that the first one
has there, stably sorted by generated position. Its names are names of the
second document.

The tables of both documents must fit. Proof: the document was written for the
redirected index under other names for its sources, and is read back as the
index of the same mappings, sorted by position; then an origin has the targets
of all sources that share its name. -/
theorem index_compose {first second : Document} {options : ComposeOptions} {composed : Composed}
    (firstSized : first.Sized) (secondSized : second.Sized)
    (success : compose first second options = .ok composed) :
    ∃ early late whole file,
      first.index = .ok early ∧ second.index = .ok late ∧ composed.document.index = .ok whole ∧
      file ∈ second.sources ∧
      (options.intermediate = some file ∨
        options.intermediate = none ∧ second.sources.eraseDups = [file]) ∧
      composed.document.file = options.file.getD second.file ∧
      composed.document.sources = first.sources.eraseDups.zipIdx.map
        (fun (source, number) => options.naming source ⟨composed.document.file, number⟩) ∧
      (∀ name line column, whole.targetsAt name line column =
        sortBy Target.position
          (((first.sources.eraseDups.zip composed.document.sources).filter (·.2 = name)).flatMap
            fun (source, _) => (early.targetsAt source line column).flatMap (late.onward file))) ∧
      ∀ name ∈ composed.document.names, name ∈ second.names := by
  obtain ⟨early, late, file, lines, composes⟩ := composes_of_compose success
  obtain ⟨output, sources, names, readBack⟩ := composes.index_eq firstSized secondSized
  refine ⟨early, late, _, file, composes.firstRead, composes.secondRead, readBack,
    composes.file_mem, composes.chosen, output, sources, ?_, ?_⟩
  · intro name line column
    have passed : lines.onward = late.onward file :=
      funext fun target => OriginIndex.onward_eq composes.found target
    rw [OriginIndex.targetsAt_ofMappings, Mapping.targetsAt_sortBy,
      OriginIndex.targetsAt_mappingsUnder, composes.sourceNames]
    simp only [OriginIndex.targetsAt_redirect, passed]
  · intro name member
    rw [names] at member
    exact composes.names name (List.mem_eraseDups.mp member)

/-- A document of two sources that meet at one point of the intermediate file. -/
def typed : Document where
  file := "mid.js"
  sources := ["a.ts", "b.ts"]
  mappings := "AAAA,CCAA,CAAA,ADAA"
  names := []

/-- A document that moves the points of the intermediate file about and knows
one of them twice. -/
def minified : Document where
  file := "out.js"
  sources := ["mid.js"]
  mappings := "AAAE,IAAAA,KAAF"
  names := ["n"]

/-- Two sources under one name are joined. -/
theorem index_compose_joined :
    ∃ composed early late whole,
      compose typed minified { naming := fun _ _ => "ab.ts" } = .ok composed ∧
      typed.index = .ok early ∧ minified.index = .ok late ∧
      composed.document.index = .ok whole ∧
      composed.document.sources = ["ab.ts", "ab.ts"] ∧
      whole.targetsAt "ab.ts" 0 0 =
        sortBy Target.position ((early.targetsAt "a.ts" 0 0).flatMap (late.onward "mid.js") ++
          (early.targetsAt "b.ts" 0 0).flatMap (late.onward "mid.js")) := by
  obtain ⟨composed, success⟩ : ∃ composed,
      compose typed minified { naming := fun _ _ => "ab.ts" } = .ok composed :=
    Walk.exists_of_isOk (by cbv)
  obtain ⟨early, late, whole, file, firstRead, secondRead, readBack, listed, _, _, sources,
    targets, _⟩ := index_compose ⟨by decide, by decide⟩ ⟨by decide, by decide⟩ success
  have distinct : typed.sources.eraseDups = ["a.ts", "b.ts"] := by decide
  obtain rfl : file = "mid.js" := by simpa [minified] using listed
  rw [distinct] at sources targets
  refine ⟨composed, early, late, whole, success, firstRead, secondRead, readBack, sources, ?_⟩
  rw [targets, sources]
  simp

end Document
end SourceMap

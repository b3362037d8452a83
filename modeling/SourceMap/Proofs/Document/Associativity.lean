import SourceMap.Proofs.Document.Composition

/-!
# Composing three documents

Three documents, one after the other, can be composed in two ways: the first two
before the third, or the last two before the first. The two ways sort at different
moments and build different tables of names in between, but both lead from each
origin through the same points, so they end with the same targets there.

In each origin the targets agree up to order, names included, and both lists
ascend; targets of one position may still change places, since a sorting in
between depends on what else there is. The documents in the middle and at the end
have one source each, so no intermediate file has to be asked for, and sources
keep their names. The composed documents themselves need not be equal.
-/

namespace SourceMap

open scoped List

/-- An index that holds at every place of a file what another one holds there,
led further, leads as the other one does and then further. -/
theorem OriginIndex.onward_perm {whole index : OriginIndex} {file : String}
    {further : Target → List Target}
    (holds : ∀ line column, (whole.targetsAt file line column).Perm
      ((index.targetsAt file line column).flatMap further)) (target : Target) :
    (whole.onward file target).Perm ((index.onward file target).flatMap further) := by
  cases atLine : target.lineNumber? with
  | none => simp [onward, atLine]
  | some line =>
    cases atColumn : target.columnNumber? with
    | none => simp [onward, atLine, atColumn]
    | some column =>
      simp only [onward, atLine, atColumn]
      exact holds line column

namespace Document

/-- The tables of a composed document are as short as those it comes from. -/
theorem Composes.sized {first second document : Document} {options : ComposeOptions}
    {early late : OriginIndex} {file : String} {lines : LineTable}
    (composes : Composes first second options document early late file lines)
    (firstSized : first.Sized) (secondSized : second.Sized) : document.Sized := by
  obtain ⟨_, sources, names, _⟩ := composes.index_eq firstSized secondSized
  constructor
  · rw [sources, List.length_map, List.length_zipIdx]
    exact (length_eraseDups_le fun _ => id).trans firstSized.sources
  · rw [names]
    exact (length_eraseDups_le composes.names).trans secondSized.names

/-- Composing with a document of one source, and keeping the names of sources:
an origin of the composed document has the targets that the second document
holds for those that the first one has there. -/
theorem compose_single {first second : Document} (firstSized : first.Sized)
    (secondSized : second.Sized) {file : String} (single : second.sources.eraseDups = [file])
    {composed : Composed} (success : compose first second {} = .ok composed)
    {early late : OriginIndex} (firstRead : first.index = .ok early)
    (secondRead : second.index = .ok late) :
    composed.document.Sized ∧ composed.document.sources = first.sources.eraseDups ∧
      ∃ whole, composed.document.index = .ok whole ∧ ∀ source line column,
        whole.targetsAt source line column = sortBy Target.position
          ((early.targetsAt source line column).flatMap (late.onward file)) := by
  obtain ⟨before, after, through, lines, composes⟩ := composes_of_compose success
  obtain rfl := Except.ok.inj (firstRead.symm.trans composes.firstRead)
  obtain rfl := Except.ok.inj (secondRead.symm.trans composes.secondRead)
  obtain rfl : file = through := by
    have member := List.mem_eraseDups.mpr composes.file_mem
    rw [single] at member
    exact (List.mem_singleton.mp member).symm
  obtain ⟨_, sources, _, readBack⟩ := composes.index_eq firstSized secondSized
  have kept : composed.document.sources = first.sources.eraseDups := by
    rw [sources]
    exact List.zipIdx_map_fst 0 _
  refine ⟨composes.sized firstSized secondSized, kept, _, readBack, ?_⟩
  intro source line column
  have passed : lines.onward = late.onward file :=
    funext fun target => OriginIndex.onward_eq composes.found target
  rw [kept, ← composes.sourceNames, OriginIndex.mappingsUnder_sourceNames,
    OriginIndex.targetsAt_ofMappings, Mapping.targetsAt_sortBy,
    OriginIndex.targetsAt_mappings, OriginIndex.targetsAt_redirect, passed]

/-- Composing is associative up to the order of targets. Whichever two documents
are composed first, the result has the same sources in the same order, and each
origin has the same targets, as often and under the same names, in ascending
order of generated position.

That all four compositions succeed is assumed: they may fail at different
points, since a composition checks what it writes. Proof: by `compose_single` a
composed document holds, at an origin, what the second document holds for what
the first one has there, sorted. Up to order, what one way leads to by two steps
the other way leads to by the same two. -/
theorem compose_assoc {first second third : Document} (firstSized : first.Sized)
    (secondSized : second.Sized) (thirdSized : third.Sized)
    (secondSingle : second.sources.eraseDups.length = 1)
    (thirdSingle : third.sources.eraseDups.length = 1)
    {firstSecond secondThird leftFirst rightFirst : Composed}
    (composedFirst : compose first second {} = .ok firstSecond)
    (composedLeft : compose firstSecond.document third {} = .ok leftFirst)
    (composedLast : compose second third {} = .ok secondThird)
    (composedRight : compose first secondThird.document {} = .ok rightFirst) :
    ∃ left right, leftFirst.document.index = .ok left ∧ rightFirst.document.index = .ok right ∧
      left.sourceNames = right.sourceNames ∧ ∀ source line column,
        (left.targetsAt source line column).Perm (right.targetsAt source line column) ∧
        (left.targetsAt source line column).Pairwise (·.position ≤ ·.position) ∧
        (right.targetsAt source line column).Pairwise (·.position ≤ ·.position) := by
  obtain ⟨file, secondOnly⟩ := List.length_eq_one_iff.mp secondSingle
  obtain ⟨onwardFile, thirdOnly⟩ := List.length_eq_one_iff.mp thirdSingle
  obtain ⟨early, middle, _, _, firstParts⟩ := composes_of_compose composedFirst
  obtain ⟨_, late, _, _, lastParts⟩ := composes_of_compose composedLast
  have earlyRead := firstParts.firstRead
  have middleRead := firstParts.secondRead
  have lateRead := lastParts.secondRead
  obtain ⟨joinedSized, joinedSources, joined, joinedRead, joinedTargets⟩ :=
    compose_single firstSized secondSized secondOnly composedFirst earlyRead middleRead
  obtain ⟨aheadSized, aheadSources, ahead, aheadRead, aheadTargets⟩ :=
    compose_single secondSized thirdSized thirdOnly composedLast middleRead lateRead
  have aheadOnly : secondThird.document.sources.eraseDups = [file] := by
    rw [aheadSources, eraseDups_idem, secondOnly]
  obtain ⟨_, leftSources, left, leftRead, leftTargets⟩ :=
    compose_single joinedSized thirdSized thirdOnly composedLeft joinedRead lateRead
  obtain ⟨_, rightSources, right, rightRead, rightTargets⟩ :=
    compose_single firstSized aheadSized aheadOnly composedRight earlyRead aheadRead
  refine ⟨left, right, leftRead, rightRead, ?_, ?_⟩
  · rw [Mappings.sourceNames_of_read leftRead, Mappings.sourceNames_of_read rightRead, leftSources,
      rightSources, joinedSources, eraseDups_idem, eraseDups_idem]
  · intro source line column
    have aheadPerm : ∀ line column, (ahead.targetsAt file line column).Perm
        ((middle.targetsAt file line column).flatMap (late.onward onwardFile)) := by
      intro line column
      rw [aheadTargets]
      exact sortBy_perm _ _
    rw [leftTargets, rightTargets, joinedTargets]
    refine ⟨?_, pairwise_sortBy _ _, pairwise_sortBy _ _⟩
    calc sortBy Target.position ((sortBy Target.position
            ((early.targetsAt source line column).flatMap (middle.onward file))).flatMap
              (late.onward onwardFile))
        _ ~ ((early.targetsAt source line column).flatMap (middle.onward file)).flatMap
              (late.onward onwardFile) :=
          (sortBy_perm _ _).trans ((sortBy_perm _ _).flatMap_right _)
        _ ~ (early.targetsAt source line column).flatMap (ahead.onward file) := by
          rw [List.flatMap_assoc]
          exact List.Perm.flatMap_left _ fun target _ =>
            (OriginIndex.onward_perm aheadPerm target).symm
        _ ~ sortBy Target.position
              ((early.targetsAt source line column).flatMap (ahead.onward file)) :=
          (sortBy_perm _ _).symm

/-- A document that moves all points of its source to one, each under a name of
its own. -/
def bundled : Document where
  file := "bundle.js"
  sources := ["out.js"]
  mappings := "KAAAA,AAAIC,AAAKC"
  names := ["x", "y", "z"]

/-- Three documents that can be composed in both ways, with different mappings
as a result. -/
theorem compose_assoc_bundled :
    ∃ leftFirst rightFirst left right,
      (compose typed minified {} >>= fun early => compose early.document bundled {}) =
        .ok leftFirst ∧
      (compose minified bundled {} >>= fun late => compose typed late.document {}) =
        .ok rightFirst ∧
      leftFirst.document.index = .ok left ∧ rightFirst.document.index = .ok right ∧
      leftFirst.document.mappings ≠ rightFirst.document.mappings ∧
      left.sourceNames = right.sourceNames ∧
      (left.targetsAt "a.ts" 0 0).Perm (right.targetsAt "a.ts" 0 0) := by
  obtain ⟨leftFirst, leftSuccess, leftText⟩ := Walk.map_eq_ok.mp (show
    (compose typed minified {} >>= fun early => compose early.document bundled {}).map
      (fun composed => composed.document.mappings) = .ok "KAAAA,AAAAC,AAAAC,ACAAF,AAAAC" by cbv)
  obtain ⟨rightFirst, rightSuccess, rightText⟩ := Walk.map_eq_ok.mp (show
    (compose minified bundled {} >>= fun late => compose typed late.document {}).map
      (fun composed => composed.document.mappings) = .ok "KAAAA,AAAAC,AAAAC,ACAAD,AAAAC" by cbv)
  obtain ⟨firstSecond, composedFirst, composedLeft⟩ := Walk.bind_eq_ok.mp leftSuccess
  obtain ⟨secondThird, composedLast, composedRight⟩ := Walk.bind_eq_ok.mp rightSuccess
  obtain ⟨left, right, leftRead, rightRead, sources, targets⟩ :=
    compose_assoc ⟨by decide, by decide⟩ ⟨by decide, by decide⟩ ⟨by decide, by decide⟩
      (by decide) (by decide) composedFirst composedLeft composedLast composedRight
  refine ⟨leftFirst, rightFirst, left, right, leftSuccess, rightSuccess, leftRead, rightRead,
    ?_, sources, (targets "a.ts" 0 0).1⟩
  rw [leftText, rightText]
  decide

end Document
end SourceMap

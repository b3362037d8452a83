import SourceMap.Proofs.Mappings.Layout
import SourceMap.Proofs.Mappings.RoundTrip
import SourceMap.Proofs.OriginIndex.OriginOrder

/-!
# Reading again what was written

Writing an index and reading the text puts the targets of each origin in the order
of their generated positions. That is all that happens to the mappings, so a
second time nothing is left to be done: the index that was read is a fixed point,
and it is written as the same text again. An index whose targets are in order
already loses nothing but the origins without targets. These are not seen in a
text, so that it is written like the index that is read back.

Both facts come from sortings. The mappings of the index that was read are those
of the first one, sorted by position and then by origin, and sorting them by
position once more changes nothing that the next sorting by origin would not undo.
What is written depends on the sources and on the list of mappings, so indexes
that agree in these are written alike, names included.
-/

namespace SourceMap

/-- The placement of a mapping whose source has its place in a list. -/
def Mapping.placement (sources : List String) (mapping : Mapping) : Placement where
  source := sources.idxOf mapping.source
  originalLine := mapping.originalLine
  originalColumn := mapping.originalColumn
  generatedLine := mapping.generatedLine
  generatedColumn := mapping.generatedColumn
  name := mapping.target.name?

/-- A placement is that of the mapping that it stands for. -/
theorem Placement.placement_mapping {sources : List String} (distinct : sources.Nodup)
    {placement : Placement} (listed : placement.source < sources.length) :
    (placement.mapping sources).placement sources = placement := by
  have source : sources.idxOf (placement.mapping sources).source = placement.source := by
    rw [mapping, List.getElem?_eq_getElem listed, Option.getD_some, distinct.idxOf_getElem]
  have line : (placement.mapping sources).originalLine = placement.originalLine := by
    simp [mapping, Mapping.originalLine]
  have column : (placement.mapping sources).originalColumn = placement.originalColumn := by
    simp [mapping, Mapping.originalColumn]
  have name : (placement.mapping sources).target.name? = placement.name := placement.name?_target
  rw [Mapping.placement, source, line, column, name, Mappings.generatedLine_mapping,
    Mappings.generatedColumn_mapping]

namespace OriginIndex

/-- Whether the targets of each origin are in the order of their generated
positions. -/
def Ordered (index : OriginIndex) : Prop :=
  ∀ source line column, (index.targetsAt source line column).Pairwise (·.position ≤ ·.position)

/-- An index as it is after writing and reading: of the same sources and
mappings, but the mappings were added in the order of their generated positions. -/
def resorted (index : OriginIndex) : OriginIndex :=
  ofMappings index.sourceNames (sortBy Mapping.position index.mappings)

variable {index : OriginIndex}

/-- The mappings of an index are as many of each as before. -/
theorem mappings_resorted_perm (index : OriginIndex) :
    index.resorted.mappings.Perm index.mappings :=
  (mappings_ofMappings_perm _ _).trans (sortBy_perm _ _)

/-- The mappings of an index stem from its sources. -/
theorem source_mem_of_mem_mappings {mapping : Mapping} (member : mapping ∈ index.mappings) :
    mapping.source ∈ index.sourceNames := by
  rw [← mappingsUnder_sourceNames] at member
  exact source_mem_of_mem_mappingsUnder member

/-- The sources stay in their places. -/
theorem sourceNames_resorted (index : OriginIndex) :
    index.resorted.sourceNames = index.sourceNames := by
  rw [resorted, sourceNames_ofMappings, eraseDups_of_nodup index.nodup_sourceNames]
  intro mapping member
  exact source_mem_of_mem_mappings (mem_sortBy.mp member)

/-- The names are the same, perhaps in another order. -/
theorem length_names_resorted (index : OriginIndex) :
    index.resorted.names.length ≤ index.names.length := by
  apply length_eraseDups_le
  intro name member
  rw [targets_eq] at member
  rw [names, List.mem_eraseDups, targets_eq]
  exact (((mappings_resorted_perm index).map _).filterMap _).mem_iff.mp member

/-- The index passes the check again. -/
theorem check_resorted (valid : index.check = .ok ()) : index.resorted.check = .ok () := by
  have sound : index.resorted.Sound := (built_ofMappings _ _).sound
  rw [sound.check_eq_ok_iff (filled_ofMappings _ _)]
  intro mapping member
  exact inRange_of_check valid mapping ((mappings_resorted_perm index).mem_iff.mp member)

/-- Sorting its mappings by their generated positions and then by their origins
gives those of the index that was read. An index lists its mappings in the order
of origins, and at one origin in the order in which they were added. -/
theorem mappings_resorted (valid : index.check = .ok ()) :
    index.resorted.mappings =
      sortBy (Mapping.origin index.sourceNames) (sortBy Mapping.position index.mappings) := by
  have again : index.resorted.Sound := (built_ofMappings _ _).sound
  have ascending := again.pairwise_origin (check_resorted valid)
  rw [sourceNames_resorted] at ascending
  refine eq_sortBy ascending fun value => ?_
  have perm : index.resorted.mappings.Perm (sortBy Mapping.position index.mappings) :=
    mappings_ofMappings_perm _ _
  have inRange : ∀ mapping ∈ sortBy Mapping.position index.mappings, mapping.InRange :=
    fun mapping member => inRange_of_check valid mapping (mem_sortBy.mp member)
  have listed : ∀ mapping ∈ sortBy Mapping.position index.mappings,
      mapping.source ∈ index.sourceNames := fun mapping member =>
    source_mem_of_mem_mappings (mem_sortBy.mp member)
  by_cases used : ∃ mapping ∈ sortBy Mapping.position index.mappings,
      mapping.origin index.sourceNames = value
  · obtain ⟨mapping, member, rfl⟩ := used
    rw [Mapping.filter_origin (inRange mapping member)
        (fun other there => inRange other (perm.mem_iff.mp there))
        (fun other there => listed other (perm.mem_iff.mp there)),
      Mapping.filter_origin (inRange mapping member) inRange listed, OriginIndex.targetsAt_mappings,
      resorted, targetsAt_ofMappings]
  · have unused := Mapping.filter_origin_eq_nil used
    rw [unused, ← List.perm_nil, ← unused]
    exact perm.filter _

/-- Doing so twice is doing it once. -/
theorem Sound.resorted_resorted (sound : index.Sound) (valid : index.check = .ok ()) :
    index.resorted.resorted = index.resorted := by
  rw [resorted, sourceNames_resorted, mappings_resorted valid,
    sortBy_sortBy_sortBy (sound.pairwise_origin valid)]
  rfl

/-- Where the targets of each origin are in order the mappings stay as they are. -/
theorem Sound.mappings_resorted_of_ordered (sound : index.Sound) (valid : index.check = .ok ())
    (ordered : index.Ordered) : index.resorted.mappings = index.mappings := by
  rw [mappings_resorted valid]
  refine sortBy_sortBy_of_pairwise (sound.pairwise_origin valid) fun value => ?_
  by_cases used : ∃ mapping ∈ index.mappings, mapping.origin index.sourceNames = value
  · obtain ⟨mapping, member, rfl⟩ := used
    rw [Mapping.filter_origin (inRange_of_check valid mapping member) (inRange_of_check valid)
      (fun _ => source_mem_of_mem_mappings), OriginIndex.targetsAt_mappings, List.pairwise_map]
    exact ordered _ _ _
  · rw [Mapping.filter_origin_eq_nil used]
    exact .nil

/-- The placements of an index that passes the check are those of its mappings. -/
theorem placements_eq_of_check (valid : index.check = .ok ()) :
    index.placements = .ok (index.mappings.map (Mapping.placement index.sourceNames)) := by
  obtain ⟨placements, placed, _⟩ := Walk.map_eq_ok.mp valid
  obtain ⟨viewed, listed⟩ := placements_eq_ok placed rfl
  rw [mappingsUnder_sourceNames] at viewed
  rw [placed, ← viewed, List.map_map]
  refine congrArg Except.ok ((List.map_id _).symm.trans ?_)
  apply List.map_congr_left
  intro placement member
  exact (placement.placement_mapping index.nodup_sourceNames (listed placement member).2).symm

end OriginIndex

namespace Mappings

/-- Write an index and read what was written under the tables written with it. -/
def reread (index : OriginIndex) : Except Fault OriginIndex := do
  let written ← write index
  read written.text written.sources written.names

/-- Whether the generated columns of mappings never decrease on a generated
line. -/
def ColumnsAscend (mappings : List Mapping) : Prop :=
  mappings.Pairwise fun earlier later =>
    earlier.generatedLine = later.generatedLine → earlier.generatedColumn ≤ later.generatedColumn

variable {sources names : List String}

/-- The tokens of groups are not on earlier lines than the first group. -/
theorem le_line_of_mem_tokensFrom {start : Nat} {groups : List (List Char)} {token : Token}
    (member : token ∈ tokensFrom start groups) : start ≤ token.line := by
  obtain ⟨⟨group, line⟩, listed, inside⟩ := List.mem_flatMap.mp member
  rw [line_of_mem_groupTokens inside]
  exact (List.mem_zipIdx listed).1

/-- The tokens of groups come line by line. -/
theorem pairwise_line_tokensFrom (start : Nat) (groups : List (List Char)) :
    (tokensFrom start groups).Pairwise (·.line ≤ ·.line) := by
  induction groups generalizing start with
  | nil => exact .nil
  | cons group rest inductionHypothesis =>
    rw [tokensFrom_cons, List.pairwise_append]
    refine ⟨?_, inductionHypothesis (start + 1), ?_⟩
    · exact List.pairwise_of_forall_mem_list fun left leftMember right rightMember =>
        ((line_of_mem_groupTokens leftMember).trans (line_of_mem_groupTokens rightMember).symm).le
    · intro left leftMember right rightMember
      have later := le_line_of_mem_tokensFrom rightMember
      rw [line_of_mem_groupTokens leftMember]
      omega

/-- A token resolves to a mapping on its line. -/
theorem Token.generatedLine_of_resolve {token : Token} {cursor next : Cursor} {mapping : Mapping}
    (success : token.resolve sources names cursor = .ok (mapping, next)) :
    mapping.generatedLine = token.line := by
  obtain ⟨offset, _, success⟩ := Walk.bind_eq_ok.mp success
  obtain ⟨⟨resolved, reached⟩, _, success⟩ := Walk.bind_eq_ok.mp success
  obtain ⟨rfl, _⟩ := Prod.mk.inj (Except.ok.inj success)
  simp [Mapping.generatedLine, Mapping.position, Target.position, Target.placed,
    Target.lineNumber?, Json.number?]

/-- Tokens resolve to mappings on their lines. -/
theorem map_generatedLine_of_resolveAll {tokens : List Token} {cursor : Cursor}
    {mappings : List Mapping}
    (success : resolveAll sources names cursor tokens = .ok mappings) :
    mappings.map Mapping.generatedLine = tokens.map Token.line := by
  induction tokens generalizing cursor mappings with
  | nil =>
    obtain rfl := Except.ok.inj success
    rfl
  | cons token rest inductionHypothesis =>
    obtain ⟨⟨mapping, next⟩, here, success⟩ := Walk.bind_eq_ok.mp success
    obtain ⟨others, further, success⟩ := Walk.bind_eq_ok.mp success
    obtain rfl := Except.ok.inj success
    rw [List.map_cons, List.map_cons, token.generatedLine_of_resolve here,
      inductionHypothesis further]

/-- A text whose generated columns never decrease on a line lists its mappings
in the order of their generated positions. -/
theorem pairwise_position_of_columnsAscend {text : List Char} {mappings : List Mapping}
    (resolved : resolveAll sources names .start (tokens text) = .ok mappings)
    (ascend : ColumnsAscend mappings) : mappings.Pairwise (·.position ≤ ·.position) := by
  have lines : mappings.Pairwise (·.generatedLine ≤ ·.generatedLine) := by
    have ofTokens := pairwise_line_tokensFrom 0 (text.splitOn ';')
    rw [← List.pairwise_map (R := (· ≤ ·))] at ofTokens ⊢
    rwa [map_generatedLine_of_resolveAll resolved]
  refine lines.imp₂ ?_ ascend
  intro earlier later lineLe columnLe
  rcases lineLe.lt_or_eq with less | same
  · exact Prod.Lex.toLex_le_toLex.mpr (Or.inl less)
  · exact Prod.Lex.toLex_le_toLex.mpr (Or.inr ⟨same, columnLe same⟩)

/-- An index that was read from such a text has the targets of each origin in
order. -/
theorem ordered_of_read {text : String} {mappings : List Mapping} {index : OriginIndex}
    (success : read text sources names = .ok index)
    (resolved : resolveAll sources names .start (tokens text.toList) = .ok mappings)
    (ascend : ColumnsAscend mappings) : index.Ordered := by
  rw [read_eq, resolved] at success
  obtain rfl := Except.ok.inj success
  intro source line column
  rw [OriginIndex.targetsAt_ofMappings, Mapping.targetsAt, List.pairwise_map]
  exact (pairwise_position_of_columnsAscend resolved ascend).filter _

variable {index : OriginIndex}

/-- What is read back is the index with its mappings in the order of their
generated positions. -/
theorem reread_eq_resorted (valid : index.check = .ok ())
    (sourcesFit : index.sourceNames.length ≤ Coordinate.greatest + 1)
    (namesFit : index.names.length ≤ Coordinate.greatest + 1) :
    reread index = .ok index.resorted := by
  obtain ⟨written, wrote, isSources, _, readBack⟩ := read_write valid sourcesFit namesFit rfl
  rw [OriginIndex.mappingsUnder_sourceNames] at readBack
  refine Walk.bind_eq_ok.mpr ⟨written, wrote, ?_⟩
  rw [isSources]
  exact readBack

/-- Indexes of the same sources and mappings that pass the check are written
alike. -/
theorem write_congr {other : OriginIndex}
    (valid : index.check = .ok ()) (otherValid : other.check = .ok ())
    (sameSources : index.sourceNames = other.sourceNames)
    (sameMappings : index.mappings = other.mappings) : write index = write other := by
  rw [write_eq, write_eq, OriginIndex.placements_eq_of_check valid,
    OriginIndex.placements_eq_of_check otherValid, sameSources, sameMappings]

/-- Reading again what was written settles after the first time. For an index
that was built and passes the check: the index that is read back comes back
unchanged when it is written and read in its turn, and both times the same is
written. If the targets of each origin were in the order of their generated
positions from the start, as they are where the index was read from a text whose
generated columns never decrease on a line, then this is what was written in the
first place: the same text under the same tables.

The first writing need not be the same as the second one: targets of one origin
may change places, and then names are first used in another order. The tables
must fit, and they do so again after the first time, since no source and no name
is added. -/
theorem reread_settles (built : index.Built) (valid : index.check = .ok ())
    (sourcesFit : index.sourceNames.length ≤ Coordinate.greatest + 1)
    (namesFit : index.names.length ≤ Coordinate.greatest + 1) :
    ∃ again further settled, reread index = .ok again ∧ reread again = .ok further ∧
      further = again ∧ write again = .ok settled ∧ write further = .ok settled ∧
      (index.Ordered → write index = .ok settled) ∧
      ∀ text sources names mappings, read text sources names = .ok index →
        resolveAll sources names .start (tokens text.toList) = .ok mappings →
        ColumnsAscend mappings → index.Ordered := by
  have sound := built.sound
  have againValid := OriginIndex.check_resorted valid
  have sameSources := index.sourceNames_resorted
  have againSourcesFit : index.resorted.sourceNames.length ≤ Coordinate.greatest + 1 :=
    sameSources ▸ sourcesFit
  have againNamesFit := (OriginIndex.length_names_resorted index).trans namesFit
  have back := reread_eq_resorted againValid againSourcesFit againNamesFit
  rw [sound.resorted_resorted valid] at back
  obtain ⟨settled, wrote, _⟩ := read_write againValid againSourcesFit againNamesFit rfl
  refine ⟨index.resorted, index.resorted, settled,
    reread_eq_resorted valid sourcesFit namesFit, back, rfl, wrote, wrote, ?_, ?_⟩
  · intro ordered
    rw [← wrote]
    exact write_congr valid againValid sameSources.symm
      (sound.mappings_resorted_of_ordered valid ordered).symm
  · intro text sources names mappings success resolved ascend
    exact ordered_of_read success resolved ascend

/-- Two targets of one origin, each with a name, against the order of their
positions. -/
def swappedIndex : OriginIndex :=
  (OriginIndex.empty ["a.ts"]).append "a.ts" 3 1 [.placed 1 7 (some "x"), .placed 0 9 (some "y")]

/-- The names are numbered anew once the targets are in order, and then stay as
they are. A text whose columns ascend is written like what is read back. -/
theorem reread_settles_swappedIndex :
    (∃ again settled, reread swappedIndex = .ok again ∧ reread again = .ok again ∧
      write again = .ok settled ∧ settled.names = ["y", "x"]) ∧
    ∃ index again, read "EAAAA,CAAA;AAAAC" ["a.ts"] ["x", "y"] = .ok index ∧
      reread index = .ok again ∧ write index = write again := by
  constructor
  · have built : swappedIndex.Built := .append _ _ _ _ (.empty _)
    obtain ⟨again, _, settled, readBack, backAgain, rfl, wrote, _⟩ :=
      reread_settles built (by cbv) (by decide +kernel) (by decide +kernel)
    have isAgain : reread swappedIndex = .ok ((OriginIndex.empty ["a.ts"]).append "a.ts" 3 1
        [.placed 0 9 (some "y"), .placed 1 7 (some "x")]) := by cbv
    obtain rfl := Except.ok.inj (readBack.symm.trans isAgain)
    have isSettled : (write ((OriginIndex.empty ["a.ts"]).append "a.ts" 3 1
        [.placed 0 9 (some "y"), .placed 1 7 (some "x")])).map WrittenMappings.names =
        .ok ["y", "x"] := by cbv
    rw [wrote] at isSettled
    exact ⟨_, settled, readBack, backAgain, wrote, Except.ok.inj isSettled⟩
  · have success : read "EAAAA,CAAA;AAAAC" ["a.ts"] ["x", "y"] =
        .ok ((OriginIndex.empty ["a.ts"]).append "a.ts" 0 0
          [.placed 0 2 (some "x"), .placed 0 3 none, .placed 1 0 (some "y")]) := by cbv
    have resolved : resolveAll ["a.ts"] ["x", "y"] .start (tokens "EAAAA,CAAA;AAAAC".toList) =
        .ok [⟨"a.ts", 0, 0, .placed 0 2 (some "x")⟩, ⟨"a.ts", 0, 0, .placed 0 3 none⟩,
          ⟨"a.ts", 0, 0, .placed 1 0 (some "y")⟩] := by cbv
    obtain ⟨again, _, settled, readBack, _, _, wrote, _, same, ordered⟩ :=
      reread_settles (OriginIndex.built_read success) (by cbv) (by decide +kernel)
        (by decide +kernel)
    have inOrder : OriginIndex.Ordered _ := ordered _ _ _ _ success resolved (by
      rw [ColumnsAscend]
      decide +kernel)
    exact ⟨_, again, success, readBack, (same inOrder).trans wrote.symm⟩

end Mappings
end SourceMap

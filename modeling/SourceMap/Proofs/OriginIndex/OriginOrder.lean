import SourceMap.Proofs.OriginIndex.InRange
import SourceMap.Proofs.OriginIndex.Outline
import SourceMap.Proofs.StableSort

/-!
# The order of origins

The mappings of an index that passes the check come in the order of their origins:
sources by their places in the index, and then lines and columns by number.
Mappings of one origin are those that stem from there. So the order of its origins
and what it holds at each of them determine the list of the mappings.

The origin of a mapping is a key of natural numbers, so that sorting by origin is
sorting by a key. It is only meant for mappings in range. There lines and columns
are natural numbers and the lexicographic order of the keys is that of the tables;
elsewhere the numbers in the key are fillers and say nothing.
-/

namespace SourceMap

/-- A natural number before another one is less than it. -/
theorem Number.lt_of_compare?_ofNat {left right : Nat}
    (before : Number.compare? (.ofNat left) (.ofNat right) = some .lt) : left < right := by
  have less : ((left : Int) : Rat) < ((right : Int) : Rat) := compare?_finite_eq_lt.mp before
  exact_mod_cast less

/-- A list without repetitions is in the order of the places of its elements. -/
theorem pairwise_idxOf_lt {α : Type} [DecidableEq α] {elements : List α}
    (distinct : elements.Nodup) :
    elements.Pairwise fun left right => elements.idxOf left < elements.idxOf right := by
  rw [List.pairwise_iff_getElem]
  intro earlier later earlierInside laterInside less
  rwa [distinct.idxOf_getElem, distinct.idxOf_getElem]

namespace Mapping

/-- The original line of a mapping. What is no natural number counts as zero
here. -/
def originalLine (mapping : Mapping) : Nat := mapping.line.toNat?.getD 0

/-- The original column of a mapping. What is no natural number counts as zero
here. -/
def originalColumn (mapping : Mapping) : Nat := mapping.column.toNat?.getD 0

/-- The origin of a mapping: the place of its source in a list, its line and its
column. -/
def origin (sources : List String) (mapping : Mapping) : Nat ×ₗ Nat ×ₗ Nat :=
  toLex (sources.idxOf mapping.source, toLex (mapping.originalLine, mapping.originalColumn))

/-- A mapping in range stems from its original line. -/
theorem InRange.line {mapping : Mapping} (inRange : mapping.InRange) :
    mapping.line = .ofNat mapping.originalLine := by
  obtain ⟨line, _, same⟩ :=
    inRange.coordinates (some (.number mapping.line)) (by simp [Mapping.coordinates])
  rw [Option.some.injEq, Json.number.injEq] at same
  simp [originalLine, same]

/-- A mapping in range stems from its original column. -/
theorem InRange.column {mapping : Mapping} (inRange : mapping.InRange) :
    mapping.column = .ofNat mapping.originalColumn := by
  obtain ⟨column, _, same⟩ :=
    inRange.coordinates (some (.number mapping.column)) (by simp [Mapping.coordinates])
  rw [Option.some.injEq, Json.number.injEq] at same
  simp [originalColumn, same]

variable {sources : List String} {left right : Mapping}

/-- A line before another one has the smaller number. -/
theorem InRange.originalLine_lt (leftInRange : left.InRange) (rightInRange : right.InRange)
    (before : Number.compare? left.line right.line = some .lt) :
    left.originalLine < right.originalLine := by
  rw [leftInRange.line, rightInRange.line] at before
  exact Number.lt_of_compare?_ofNat before

/-- A column before another one has the smaller number. -/
theorem InRange.originalColumn_lt (leftInRange : left.InRange) (rightInRange : right.InRange)
    (before : Number.compare? left.column right.column = some .lt) :
    left.originalColumn < right.originalColumn := by
  rw [leftInRange.column, rightInRange.column] at before
  exact Number.lt_of_compare?_ofNat before

/-- Mappings of one origin stem from the same place, and the other way round. -/
theorem InRange.origin_eq_iff (leftInRange : left.InRange) (rightInRange : right.InRange)
    (listed : left.source ∈ sources) :
    left.origin sources = right.origin sources ↔
      left.source = right.source ∧ left.line = right.line ∧ left.column = right.column := by
  rw [origin, origin, EmbeddingLike.apply_eq_iff_eq, Prod.mk.injEq, EmbeddingLike.apply_eq_iff_eq,
    Prod.mk.injEq, List.idxOf_inj listed, leftInRange.line, rightInRange.line, leftInRange.column,
    rightInRange.column, Number.ofNat_injective.eq_iff, Number.ofNat_injective.eq_iff]

/-- The mappings that stem from a place are known from their targets. -/
theorem filter_isAt (mappings : List Mapping) (source : String) (line column : Number) :
    mappings.filter (isAt source line column) =
      (targetsAt mappings source line column).map (Mapping.mk source line column) := by
  rw [targetsAt, List.map_map]
  refine (List.map_id _).symm.trans (List.map_congr_left fun mapping member => ?_)
  obtain ⟨rfl, rfl, rfl⟩ : mapping.source = source ∧ mapping.line = line ∧
      mapping.column = column := by simpa [isAt] using (List.mem_filter.mp member).2
  rfl

/-- The mappings of an origin are those that stem from the same place as one of
them. -/
theorem filter_origin {mappings : List Mapping} {mapping : Mapping} (inRange : mapping.InRange)
    (allInRange : ∀ other ∈ mappings, other.InRange)
    (listed : ∀ other ∈ mappings, other.source ∈ sources) :
    mappings.filter (·.origin sources = mapping.origin sources) =
      (targetsAt mappings mapping.source mapping.line mapping.column).map
        (Mapping.mk mapping.source mapping.line mapping.column) := by
  rw [← filter_isAt]
  apply List.filter_congr
  intro other member
  simp only [(allInRange other member).origin_eq_iff inRange (listed other member), isAt]

/-- No mapping is of an origin that none of them has. -/
theorem filter_origin_eq_nil {mappings : List Mapping} {value : Nat ×ₗ Nat ×ₗ Nat}
    (unused : ¬∃ mapping ∈ mappings, mapping.origin sources = value) :
    mappings.filter (·.origin sources = value) = [] := by
  rw [List.filter_eq_nil_iff]
  intro mapping member here
  exact unused ⟨mapping, member, of_decide_eq_true here⟩

end Mapping

/-- The columns of a line list their mappings in the order of their origins. -/
theorem ColumnTable.pairwise_origin {columns : ColumnTable} {source : String} {line : Number}
    (ascending : OrderedMap.Ascending Number.compare? columns.entries)
    (inRange : ∀ mapping ∈ ColumnTable.mappings columns source line, mapping.InRange)
    (sources : List String) :
    (ColumnTable.mappings columns source line).Pairwise
      (·.origin sources ≤ ·.origin sources) := by
  rw [ColumnTable.mappings, List.pairwise_flatMap]
  constructor
  · intro entry _
    rw [List.pairwise_map]
    exact List.pairwise_of_forall fun _ _ => le_rfl
  · refine ascending.imp_of_mem ?_
    intro earlier later earlierListed laterListed before left leftMember right rightMember
    have leftInRange := inRange left (List.mem_flatMap.mpr ⟨earlier, earlierListed, leftMember⟩)
    have rightInRange := inRange right (List.mem_flatMap.mpr ⟨later, laterListed, rightMember⟩)
    obtain ⟨target, _, rfl⟩ := List.mem_map.mp leftMember
    obtain ⟨other, _, rfl⟩ := List.mem_map.mp rightMember
    have less := leftInRange.originalColumn_lt rightInRange before.2
    refine Prod.Lex.toLex_le_toLex.mpr (Or.inr ⟨rfl, ?_⟩)
    exact Prod.Lex.toLex_le_toLex.mpr (Or.inr ⟨rfl, less.le⟩)

/-- The lines of a source list their mappings in the order of their origins. -/
theorem LineTable.pairwise_origin {lines : LineTable} {source : String} (sound : lines.Sound)
    (defined : lines.Defined) (inRange : ∀ mapping ∈ lines.mappings source, mapping.InRange)
    (sources : List String) :
    (lines.mappings source).Pairwise (·.origin sources ≤ ·.origin sources) := by
  rw [LineTable.mappings, List.pairwise_flatMap]
  constructor
  · intro entry listed
    have value : entry.2 ∈ lines.values := List.mem_map_of_mem listed
    have columnsSound : ColumnTable.Sound entry.2 := (sound.values entry.2 value).1
    exact ColumnTable.pairwise_origin (columnsSound.ascending (defined.columnKeys entry.2 value))
      (fun mapping member => inRange mapping (List.mem_flatMap.mpr ⟨entry, listed, member⟩)) sources
  · refine (sound.ascending defined.lineKeys).imp_of_mem ?_
    intro earlier later earlierListed laterListed before left leftMember right rightMember
    have leftInRange := inRange left (List.mem_flatMap.mpr ⟨earlier, earlierListed, leftMember⟩)
    have rightInRange := inRange right (List.mem_flatMap.mpr ⟨later, laterListed, rightMember⟩)
    obtain ⟨leftSource, leftLine⟩ := ColumnTable.origin_of_mem_mappings leftMember
    obtain ⟨rightSource, rightLine⟩ := ColumnTable.origin_of_mem_mappings rightMember
    have less : left.originalLine < right.originalLine := by
      apply leftInRange.originalLine_lt rightInRange
      rw [leftLine, rightLine]
      exact before.2
    rw [Mapping.origin, Mapping.origin, leftSource, rightSource]
    refine Prod.Lex.toLex_le_toLex.mpr (Or.inr ⟨rfl, ?_⟩)
    exact Prod.Lex.toLex_le_toLex.mpr (Or.inl less)

namespace OriginIndex

variable {index : OriginIndex}

/-- The lines and the columns of an index that passes the check are defined. -/
theorem defined_of_check (valid : index.check = .ok ()) : index.Defined := by
  have passes := check_eq_ok_iff.mp valid
  have defined {place : Place} {key : Number}
      (passed : (Check.coordinate place (some (.number key))).Passes) : key ≠ .nan := by
    rintro rfl
    obtain ⟨coordinate, _, impossible⟩ := passed
    cases impossible
  intro lines linesMember
  obtain ⟨⟨source, _⟩, sourceListed, rfl⟩ := List.mem_map.mp linesMember
  constructor
  · intro line lineMember
    obtain ⟨⟨_, columns⟩, lineListed, rfl⟩ := List.mem_map.mp lineMember
    exact defined (passes _ (List.mem_flatMap.mpr ⟨_, sourceListed,
      List.mem_flatMap.mpr ⟨_, lineListed, List.mem_cons_self⟩⟩))
  · intro columns columnsMember column columnMember
    obtain ⟨⟨line, _⟩, lineListed, rfl⟩ := List.mem_map.mp columnsMember
    obtain ⟨⟨_, targets⟩, columnListed, rfl⟩ := List.mem_map.mp columnMember
    exact defined (passes _ (List.mem_flatMap.mpr ⟨_, sourceListed,
      List.mem_flatMap.mpr ⟨_, lineListed, List.mem_cons_of_mem _
        (List.mem_flatMap.mpr ⟨_, columnListed, List.mem_cons_self⟩)⟩⟩))

/-- An index that passes the check lists its mappings in the order of their
origins. -/
theorem Sound.pairwise_origin (sound : index.Sound) (valid : index.check = .ok ()) :
    index.mappings.Pairwise
      (·.origin index.sourceNames ≤ ·.origin index.sourceNames) := by
  have inRange := inRange_of_check valid
  have defined := defined_of_check valid
  have places : index.sources.entries.Pairwise fun earlier later =>
      index.sourceNames.idxOf earlier.1 < index.sourceNames.idxOf later.1 := by
    have listed := pairwise_idxOf_lt index.nodup_sourceNames
    rwa [sourceNames, OrderedMap.keys, List.pairwise_map] at listed
  rw [OriginIndex.mappings, List.pairwise_flatMap]
  constructor
  · intro entry listed
    have value : entry.2 ∈ index.sources.values := List.mem_map_of_mem listed
    exact LineTable.pairwise_origin (sound.values entry.2 value) (defined entry.2 value)
      (fun mapping member => inRange mapping (List.mem_flatMap.mpr ⟨entry, listed, member⟩)) _
  · refine places.imp ?_
    intro earlier later less left leftMember right rightMember
    rw [Mapping.origin, Mapping.origin, LineTable.source_of_mem_mappings leftMember,
      LineTable.source_of_mem_mappings rightMember]
    exact Prod.Lex.toLex_le_toLex.mpr (Or.inl less)

end OriginIndex
end SourceMap

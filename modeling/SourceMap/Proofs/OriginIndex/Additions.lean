import SourceMap.Proofs.OriginIndex.Adding
import SourceMap.Proofs.OriginIndex.Outline

/-!
# Indexes made by additions

An index that starts without sources and takes in mappings one after the other
makes a source, a line and a column where there is none yet, each at the place
that the order gives it. As no key is undefined, only the order of the additions
at one origin matters: what is added at different origins can be interleaved in
any way and leaves the same index, down to the order in which its sources, lines
and columns are listed.

The condition on keys cannot be dropped. An undefined number among the lines
compares with no other line, and where the search puts it depends on which lines
are there already. What holds in any case is what is found at each origin and how
many targets there are.
-/

namespace SourceMap

/-- Something is stored in a table that has columns. -/
theorem ColumnTable.exists_isSome_get? {columns : ColumnTable} (filled : columns.entries ≠ []) :
    ∃ column, (columns.get? column).isSome = true := by
  obtain ⟨entry, listed⟩ := List.exists_mem_of_ne_nil columns.entries filled
  exact ⟨entry.1, (OrderedMap.mem_keys_iff columns entry.1).mp (List.mem_map_of_mem listed)⟩

namespace LineTable

/-- Something is stored in a sound table that has lines. -/
theorem Sound.exists_isSome_stored? {lines : LineTable} (sound : lines.Sound)
    (filled : lines.entries ≠ []) : ∃ line column, (lines.stored? line column).isSome = true := by
  obtain ⟨⟨line, columns⟩, listed⟩ := List.exists_mem_of_ne_nil lines.entries filled
  have columnsFilled := (sound.values columns (List.mem_map_of_mem listed)).2
  obtain ⟨column, found⟩ := ColumnTable.exists_isSome_get? columnsFilled
  refine ⟨line, column, ?_⟩
  rw [stored?, (OrderedMap.mem_entries_iff _ line columns).mp listed]
  exact found

/-- Sound tables without undefined keys are equal if the same is stored at all
places. -/
theorem Sound.eq_of_stored?_eq {lines others : LineTable} (sound : lines.Sound)
    (othersSound : others.Sound) (defined : lines.Defined)
    (same : ∀ line column, lines.stored? line column = others.stored? line column) :
    lines = others := by
  refine OrderedMap.Sound.eq_of_bind_eq Number.strictOrder sound othersSound defined.lineKeys
    OrderedMap.get? ?_ ?_ ?_ same
  · exact fun columns member => ColumnTable.exists_isSome_get? (sound.values columns member).2
  · exact fun columns member => ColumnTable.exists_isSome_get? (othersSound.values columns member).2
  · intro left leftMember right rightMember alike
    exact OrderedMap.Sound.eq_of_get?_eq Number.strictOrder (sound.values left leftMember).1
      (othersSound.values right rightMember).1 (defined.columnKeys left leftMember) (congrFun alike)

/-- Appending at a defined place leaves a table without undefined keys. -/
theorem Defined.append {lines : LineTable} (defined : lines.Defined) {line column : Number}
    (definedLine : line ≠ .nan) (definedColumn : column ≠ .nan) (targets : List Target) :
    (lines.append line column targets).Defined where
  lineKeys := by
    intro other member
    rcases (mem_keys_append lines line column targets other).mp member with rfl | earlier
    · exact definedLine
    · exact defined.lineKeys other earlier
  columnKeys := by
    intro columns member other key
    rcases OrderedMap.mem_values_insert member with rfl | earlier
    · rcases (OrderedMap.mem_keys_insert _ column _ other).mp key with rfl | present
      · exact definedColumn
      · cases found : lines.get? line with
        | none => simp [found, OrderedMap.keys, OrderedMap.empty] at present
        | some columns =>
          rw [found] at present
          exact defined.columnKeys columns (OrderedMap.mem_values_of_get? found) other present
    · exact defined.columnKeys columns earlier other key

/-- The table without lines has no undefined keys. -/
theorem defined_empty : Defined OrderedMap.empty where
  lineKeys := fun _ member => nomatch member
  columnKeys := fun _ member => nomatch member

end LineTable

namespace Mapping

/-- Whether a mapping stems from a defined line and column. -/
def Defined (mapping : Mapping) : Prop := mapping.line ≠ .nan ∧ mapping.column ≠ .nan

/-- Mappings hold the same for all origins if they do for those that some of
them stem from. -/
theorem targetsAt_eq_iff {mappings others : List Mapping} :
    (∀ source line column,
      targetsAt mappings source line column = targetsAt others source line column) ↔
    ∀ mapping ∈ mappings ++ others,
      targetsAt mappings mapping.source mapping.line mapping.column =
        targetsAt others mapping.source mapping.line mapping.column := by
  refine ⟨fun same mapping _ => same mapping.source mapping.line mapping.column, ?_⟩
  intro same source line column
  by_cases here : ∃ mapping ∈ mappings ++ others,
      mapping.source = source ∧ mapping.line = line ∧ mapping.column = column
  · obtain ⟨mapping, member, rfl, rfl, rfl⟩ := here
    exact same mapping member
  · have elsewhere : ∀ mapping ∈ mappings ++ others,
        ¬(mapping.source = source ∧ mapping.line = line ∧ mapping.column = column) :=
      fun mapping member isHere => here ⟨mapping, member, isHere⟩
    rw [List.forall_mem_append] at elsewhere
    rw [targetsAt_eq_nil elsewhere.1, targetsAt_eq_nil elsewhere.2]

end Mapping

namespace OriginIndex

/-- The index that starts without sources and takes in additions one after the
other. -/
def ofAdditions (order : List String) (additions : List Mapping) : OriginIndex :=
  additions.foldl addMapping (empty order)

/-- What an index has that was made by additions at defined lines and columns:
it is sound, no key is undefined, and each source has lines. With these three,
what is stored tells two such indexes apart at every level: there is something
to be found in each source and in each line. -/
structure Grown (index : OriginIndex) : Prop where
  sound : index.Sound
  defined : index.Defined
  filled : ∀ lines ∈ index.sources.values, lines.entries ≠ []

/-- The index without sources has nothing that could be undefined or without
lines. -/
theorem grown_empty (order : List String) : (empty order).Grown where
  sound := sound_empty order
  defined := fun _ member => nomatch member
  filled := fun _ member => nomatch member

namespace Grown

variable {index other : OriginIndex}

/-- An addition at a defined line and column keeps what additions have made. -/
theorem addMapping (grown : index.Grown) {mapping : Mapping} (defined : mapping.Defined) :
    (index.addMapping mapping).Grown where
  sound := grown.sound.append _ _ _ _
  defined := by
    intro lines member
    rcases OrderedMap.mem_values_insert member with rfl | earlier
    · refine LineTable.Defined.append ?_ defined.1 defined.2 _
      cases found : index.lines? mapping.source with
      | none => exact LineTable.defined_empty
      | some lines => exact grown.defined lines (OrderedMap.mem_values_of_get? found)
    · exact grown.defined lines earlier
  filled := by
    intro lines member
    rcases OrderedMap.mem_values_insert member with rfl | earlier
    · intro nothing
      have present := (LineTable.mem_keys_append ((index.lines? mapping.source).getD .empty)
        mapping.line mapping.column [mapping.target] mapping.line).mpr (Or.inl rfl)
      rw [OrderedMap.keys, nothing] at present
      cases present
    · exact grown.filled lines earlier

/-- Indexes of one order that additions have made are equal if the same is
stored at all origins. -/
theorem eq_of_stored?_eq (grown : index.Grown) (otherGrown : other.Grown)
    (sameOrder : index.order = other.order)
    (same : ∀ source line column,
      index.stored? source line column = other.stored? source line column) : index = other := by
  obtain ⟨order, sources⟩ := index
  obtain ⟨_, others⟩ := other
  obtain rfl : order = _ := sameOrder
  congr 1
  refine OrderedMap.Sound.eq_of_bind_eq (compareSources_strictOrder order) grown.sound
    otherGrown.sound (fun _ _ => trivial)
    (fun lines (place : Number × Number) => lines.stored? place.1 place.2) ?_ ?_ ?_
    fun source place => same source place.1 place.2
  · intro lines member
    obtain ⟨line, column, found⟩ :=
      (grown.sound.values lines member).exists_isSome_stored? (grown.filled lines member)
    exact ⟨(line, column), found⟩
  · intro lines member
    obtain ⟨line, column, found⟩ :=
      (otherGrown.sound.values lines member).exists_isSome_stored? (otherGrown.filled lines member)
    exact ⟨(line, column), found⟩
  · intro left leftMember right rightMember alike
    exact (grown.sound.values left leftMember).eq_of_stored?_eq
      (otherGrown.sound.values right rightMember) (grown.defined left leftMember)
      fun line column => congrFun alike (line, column)

end Grown

variable {order : List String} {additions others : List Mapping}

/-- Additions do not change the order of an index. -/
theorem order_ofAdditions (order : List String) (additions : List Mapping) :
    (ofAdditions order additions).order = order := by
  refine List.foldlRecOn (motive := fun index => OriginIndex.order index = order)
    additions addMapping rfl ?_
  exact fun _ same _ _ => same

/-- Additions at defined lines and columns make an index without undefined keys. -/
theorem grown_ofAdditions (order : List String) (defined : ∀ mapping ∈ additions, mapping.Defined) :
    (ofAdditions order additions).Grown :=
  List.foldlRecOn additions addMapping (grown_empty order) fun _ grown mapping member =>
    grown.addMapping (defined mapping member)

/-- Additions store at each origin the targets that were added there, in their
order, and nothing where none was. -/
theorem stored?_ofAdditions (order : List String) (additions : List Mapping) (source : String)
    (line column : Number) :
    (ofAdditions order additions).stored? source line column =
      if Mapping.targetsAt additions source line column = [] then none
      else some (Mapping.targetsAt additions source line column) :=
  stored?_foldl_addMapping additions (empty order) source line column

/-- At each origin there are the targets that were added there, in their order. -/
theorem targetsAt_ofAdditions (order : List String) (additions : List Mapping) (source : String)
    (line column : Number) :
    (ofAdditions order additions).targetsAt source line column =
      Mapping.targetsAt additions source line column :=
  targetsAt_of_stored? (stored?_ofAdditions order additions source line column)

/-- There are as many targets as additions. -/
theorem count_ofAdditions (order : List String) (additions : List Mapping) :
    (ofAdditions order additions).count = additions.length := by
  have listed := mappings_foldl_addMapping_perm additions (empty order)
  rw [count_eq, ofAdditions, listed.length_eq, List.length_append]
  rfl

/-- Additions to an index without sources, under any order. At every origin the
index has the targets that were added there, one after the other, and all in all
as many as there were additions. If no line and no column is undefined, two
lists of additions make the same index exactly if they add the same targets in
the same order at each origin, however they go back and forth between origins;
the same index lists its sources, lines and columns in the same order.

Proof: what is stored at an origin is known from the additions by induction on
their list. Two indexes that store the same at all origins are equal because
both are grown from one order. In the other direction the targets of an origin
are read off the index. -/
theorem ofAdditions_pointwise (order : List String) :
    (∀ additions : List Mapping,
      (∀ source line column, (ofAdditions order additions).targetsAt source line column =
        Mapping.targetsAt additions source line column) ∧
      (ofAdditions order additions).count = additions.length) ∧
    ∀ additions others : List Mapping, (∀ mapping ∈ additions, mapping.Defined) →
      (∀ mapping ∈ others, mapping.Defined) →
      (ofAdditions order additions = ofAdditions order others ↔
        ∀ source line column, Mapping.targetsAt additions source line column =
          Mapping.targetsAt others source line column) := by
  refine ⟨fun additions => ⟨targetsAt_ofAdditions order additions,
    count_ofAdditions order additions⟩, ?_⟩
  intro additions others defined othersDefined
  constructor
  · intro same source line column
    rw [← targetsAt_ofAdditions order, same, targetsAt_ofAdditions]
  · intro same
    refine (grown_ofAdditions order defined).eq_of_stored?_eq
      (grown_ofAdditions order othersDefined) ?_ fun source line column => ?_
    · rw [order_ofAdditions, order_ofAdditions]
    · rw [stored?_ofAdditions, stored?_ofAdditions, same]

/-- Two targets of one origin stay in their order while additions in another
source, at a smaller line of it and in between go before, between or behind
them. -/
theorem ofAdditions_pointwise_interleaved :
    let first : Mapping := ⟨"a.js", 10, 0, .placed 0 0 none⟩
    let second : Mapping := ⟨"a.js", 10, 0, .placed 0 4 (some "x")⟩
    let below : Mapping := ⟨"b.js", 3, 9, .placed 1 0 none⟩
    let above : Mapping := ⟨"b.js", 1, 2, .placed 2 0 none⟩
    let index := ofAdditions ["b.js"] [first, below, second, above]
    index = ofAdditions ["b.js"] [above, first, second, below] ∧
      index.targetsAt "a.js" 10 0 = [first.target, second.target] ∧
      index.targetsAt "b.js" 10 0 = [] ∧ index.count = 4 ∧
      index.outline = [("b.js", [(1, [2]), (3, [9])]), ("a.js", [(10, [0])])] := by
  intro first second below above index
  obtain ⟨stores, settles⟩ := ofAdditions_pointwise ["b.js"]
  obtain ⟨places, count⟩ := stores [first, below, second, above]
  refine ⟨(settles _ _ ?_ ?_).mpr (Mapping.targetsAt_eq_iff.mpr ?_), (places "a.js" 10 0).trans ?_,
    (places "b.js" 10 0).trans ?_, count, ?_⟩
  · simp only [List.forall_mem_cons, Mapping.Defined]
    decide
  · simp only [List.forall_mem_cons, Mapping.Defined]
    decide
  · simp only [List.cons_append, List.nil_append, List.forall_mem_cons]
    exact ⟨rfl, rfl, rfl, rfl, rfl, rfl, rfl, rfl, nofun⟩
  · rfl
  · rfl
  · decide +kernel

end OriginIndex
end SourceMap

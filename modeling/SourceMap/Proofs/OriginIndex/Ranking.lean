import SourceMap.Proofs.OriginIndex.Adding

/-!
# The ranking of the sources of an index

The list that an index starts with ranks its sources once and for all: first come
those that the list mentions, each at its first place in it, then the others by
code unit. It does not matter in which order the sources come in, how often and
with what lines, nor whether the index is redirected in between: the sources that
came in are listed in the order of their ranks, each of them once.

The changes of an index are listed by `Change`, and a run of changes is a fold
over them. The invariant of a run is `HasTaken`. It says nothing about lines, so a
source may be set to any table, also one that is in no order. The ranking itself
is written down with a filter and a sort and does not use the comparison.
-/

namespace SourceMap

/-- Sources by rank, each of them once: those that a list mentions in the order
of the list, then the others by code unit. -/
def rankSources (order sources : List String) : List String :=
  order.eraseDups.filter (· ∈ sources) ++
    (sources.eraseDups.filter (· ∉ order)).mergeSort Units.ascends

/-- Names in strictly ascending order under a list of sources. -/
def Ranked (order names : List String) : Prop :=
  names.Pairwise fun left right => compareSources order left right = some .lt

/-- No name is ranked twice. -/
theorem Ranked.nodup {order names : List String} (ranked : Ranked order names) : names.Nodup := by
  refine ranked.imp fun {left right} less same => ?_
  rw [same, compareSources_self] at less
  cases less

/-- There is only one way to rank the same names. -/
theorem Ranked.eq_of_mem_iff {order names others : List String} (ranked : Ranked order names)
    (othersRanked : Ranked order others) (same : ∀ source, source ∈ names ↔ source ∈ others) :
    names = others := by
  have ascending {listed : List String} (isRanked : Ranked order listed) :
      OrderedMap.Ascending (compareSources order) (listed.map fun source => (source, ())) :=
    List.pairwise_map.mpr (isRanked.nodup.and isRanked)
  have entries := (ascending ranked).eq_of_mem_iff (compareSources_strictOrder order)
    (ascending othersRanked) (fun _ _ => trivial) fun entry => by simp [same]
  simpa [Function.comp_def] using congrArg (List.map Prod.fst) entries

/-- An index whose table of sources is sound lists them by rank. -/
theorem OriginIndex.ranked_sourceNames {good : LineTable → Prop} {index : OriginIndex}
    (sound : OrderedMap.Sound (fun _ => True) good index.sources) :
    Ranked index.order index.sourceNames :=
  List.pairwise_map.mpr ((sound.ascending fun _ _ => trivial).imp And.right)

/-- A list ranks its own entries in their order, once they are not repeated. -/
theorem ranked_eraseDups (order : List String) : Ranked order order.eraseDups := by
  have ranked := OriginIndex.ranked_sourceNames (OriginIndex.sound_ofSources order)
  have ordered : (OriginIndex.ofSources order).order = order :=
    List.foldlRecOn (motive := fun index => OriginIndex.order index = order) order
      OriginIndex.includeSource rfl fun index same source _ =>
        (OriginIndex.order_includeSource index source).trans same
  rwa [ordered, OriginIndex.sourceNames_ofSources] at ranked

section Rank

variable {order sources : List String}

/-- Ranking leaves out no source and adds none. -/
theorem mem_rankSources {source : String} :
    source ∈ rankSources order sources ↔ source ∈ sources := by
  by_cases mentioned : source ∈ order <;> simp [rankSources, mentioned]

/-- Sources by rank are ranked. -/
theorem ranked_rankSources : Ranked order (rankSources order sources) := by
  have mentioned {source : String} (member : source ∈ order.eraseDups.filter (· ∈ sources)) :
      source ∈ order := List.mem_eraseDups.mp (List.mem_filter.mp member).1
  have other {source : String}
      (member : source ∈ (sources.eraseDups.filter (· ∉ order)).mergeSort Units.ascends) :
      source ∉ order := by
    simpa using (List.mem_filter.mp (List.mem_mergeSort.mp member)).2
  have ascending := Units.pairwise_mergeSort_ascends
    ((nodup_eraseDups sources).filter fun source => decide (source ∉ order))
  refine List.pairwise_append.mpr ⟨(ranked_eraseDups order).filter _, ?_, ?_⟩
  · refine ascending.imp_of_mem fun {left right} leftMember rightMember less => ?_
    rw [compareSources_of_not_mem (other leftMember) (other rightMember), less]
  · intro left leftMember right rightMember
    exact compareSources_of_mem_of_not_mem (mentioned leftMember) (other rightMember)

-- A character beyond the basic plane starts with a surrogate, which comes before some others.
example : rankSources ["b", "a", "b"] ["｡", "a", "😀", "b", "a"] = ["b", "a", "😀", "｡"] := by cbv

/-- Ranked names are the sources by rank that they are. -/
theorem Ranked.eq_rankSources {names : List String} (ranked : Ranked order names)
    (same : ∀ source, source ∈ names ↔ source ∈ sources) : names = rankSources order sources :=
  ranked.eq_of_mem_iff ranked_rankSources fun source => (same source).trans mem_rankSources.symm

end Rank

namespace OriginIndex

/-- What can be done to the sources of an index: one can be made sure of, be
added to or be set, and all of them can be redirected. -/
inductive Change where
  | ensure (source : String)
  | add (source : String) (line column : Number) (target : Target)
  | set (source : String) (lines : LineTable)
  | redirect (second : LineTable)

/-- The source that a change inserts. -/
def Change.source? : Change → Option String
  | .ensure source => some source
  | .add source _ _ _ => some source
  | .set source _ => some source
  | .redirect _ => none

/-- The index after a change. -/
def change (index : OriginIndex) : Change → OriginIndex
  | .ensure source => index.includeSource source
  | .add source line column target => index.add source line column target
  | .set source lines => index.setLines source lines
  | .redirect second => (index.redirectCounted second).index

/-- What holds of an index that starts under a list and into which sources were
inserted: it goes by the list, its table of sources is in order, and it lists
the sources inserted. Whatever is done to the index, none of its sources is
lost. -/
structure HasTaken (order inserted : List String) (index : OriginIndex) : Prop where
  order_eq : index.order = order
  sound : OrderedMap.Sound (fun _ => True) (fun _ => True) index.sources
  mem_iff : ∀ source, source ∈ index.sourceNames ↔ source ∈ inserted

namespace HasTaken

variable {order inserted : List String} {index : OriginIndex}

/-- An index starts without sources. -/
theorem empty (order : List String) : HasTaken order [] (OriginIndex.empty order) where
  order_eq := rfl
  sound := .empty
  mem_iff := fun _ => Iff.rfl

/-- Setting the lines of a source inserts it. -/
theorem setLines (taken : HasTaken order inserted index) (source : String) (lines : LineTable) :
    HasTaken order (inserted ++ [source]) (index.setLines source lines) where
  order_eq := taken.order_eq
  sound := taken.sound.insert (compareSources_strictOrder index.order) source trivial
  mem_iff := by
    intro other
    have listed : other ∈ (index.setLines source lines).sourceNames ↔
        other = source ∨ other ∈ index.sourceNames :=
      OrderedMap.mem_keys_insert index.sources source lines other
    rw [listed, taken.mem_iff, List.mem_append, List.mem_singleton, or_comm]

/-- Redirecting inserts nothing. -/
theorem redirect (taken : HasTaken order inserted index) (second : LineTable) :
    HasTaken order inserted (index.redirect second) where
  order_eq := taken.order_eq
  sound := by
    rw [redirect_eq]
    exact OrderedMap.Sound.rebuild (compareSources_strictOrder index.order) fun _ _ => trivial
  mem_iff := by
    intro source
    have entries := OrderedMap.entries_rebuild (fun lines => lines.redirect second)
      (taken.sound.ascending fun _ _ => trivial)
    have names : (index.redirect second).sourceNames = index.sourceNames := by
      rw [redirect_eq]
      simp [sourceNames, OrderedMap.keys, entries, Function.comp_def]
    rw [names, taken.mem_iff]

/-- A change inserts its source, if it has one, and nothing else. -/
theorem change (taken : HasTaken order inserted index) (change : Change) :
    HasTaken order (inserted ++ change.source?.toList) (index.change change) := by
  cases change with
  | ensure source =>
    change HasTaken order (inserted ++ [source]) (index.includeSource source)
    unfold includeSource
    cases found : index.lines? source with
    | some lines =>
      have present : source ∈ inserted := by
        rw [← taken.mem_iff, mem_sourceNames_iff, found, Option.isSome_some]
      refine ⟨taken.order_eq, taken.sound, fun other => ?_⟩
      rw [taken.mem_iff, List.mem_append, List.mem_singleton, or_iff_left_of_imp]
      rintro rfl
      exact present
    | none => exact taken.setLines source .empty
  | add source line column target => exact taken.setLines source _
  | set source lines => exact taken.setLines source lines
  | redirect second =>
    rw [Change.source?, Option.toList_none, List.append_nil]
    exact taken.redirect second

/-- Changes insert their sources one after the other. -/
theorem foldl_change (taken : HasTaken order inserted index) (changes : List Change) :
    HasTaken order (inserted ++ changes.filterMap Change.source?)
      (changes.foldl OriginIndex.change index) := by
  induction changes generalizing inserted index with
  | nil => simpa using taken
  | cons first rest inductionHypothesis =>
    have later := inductionHypothesis (taken.change first)
    cases source : first.source? <;> simpa [source] using later

end HasTaken

/-- An index that starts under any list of sources, through any changes: sources
inserted in any order and as often as one likes, each in one of three ways, and
redirections anywhere between. It lists the sources inserted, each of them once:
first those that the list mentions, by their first places in it, then the others
by code unit.

Proof: the run keeps `HasTaken`. At its end the sources of the index and the
ranked ones are both in strictly ascending order and have the same members, so
they are the same list. -/
theorem sourceNames_foldl_change (order : List String) (changes : List Change) :
    (changes.foldl change (empty order)).sourceNames =
        rankSources order (changes.filterMap Change.source?) ∧
      (changes.foldl change (empty order)).sourceNames.Nodup := by
  have taken := (HasTaken.empty order).foldl_change changes
  have ranked := ranked_sourceNames taken.sound
  rw [taken.order_eq] at ranked
  exact ⟨ranked.eq_rankSources taken.mem_iff, ranked.nodup⟩

end OriginIndex
end SourceMap

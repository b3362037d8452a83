import SourceMap.Proofs.Distinct
import SourceMap.Proofs.OriginIndex.Listing

/-!
# Indexes made by adding mappings

An index that starts with the sources of a list and takes in mappings of these
sources one after the other: its sources are those of the list without
repetitions, each origin holds the targets of its mappings in their order, no
other origin holds anything, and there are as many targets as mappings.

This is what reading a mappings text does with the index, whatever the cursor does
beside it. A run of additions is described by the list of its mappings, so its
laws are inductions over that list whose step is one of the laws for a single
addition. The sources of the list are inserted first, all of them, so that also a
source without mappings is listed and the order of the sources is settled before
the first mapping.
-/

namespace SourceMap
namespace OriginIndex

section

variable {σ : Type} [DecidableEq σ] [SourceKey σ]

/-- Add a mapping to an index. -/
def addMapping (index : OriginIndex σ) (mapping : Mapping σ) : OriginIndex σ :=
  index.add mapping.source mapping.line mapping.column mapping.target

/-- The index that holds the sources of a list and nothing else. -/
def ofSources (sources : List σ) : OriginIndex σ := sources.foldl includeSource (empty sources)

/-- The index that starts with the sources of a list and takes in mappings in
their order. -/
def ofMappings (sources : List σ) (mappings : List (Mapping σ)) : OriginIndex σ :=
  mappings.foldl addMapping (ofSources sources)

end

/-- Whether a line is a key in the lines of a source, with or without targets. -/
def HasLine (index : OriginIndex) (source : String) (line : Number) : Prop :=
  ∃ lines, index.lines? source = some lines ∧ line ∈ lines.keys

/-- Making sure of a source that has lines changes nothing. -/
theorem includeSource_of_mem {index : OriginIndex} {source : String}
    (present : source ∈ index.sourceNames) : index.includeSource source = index := by
  obtain ⟨lines, found⟩ :=
    Option.isSome_iff_exists.mp ((index.mem_sourceNames_iff source).mp present)
  unfold includeSource
  rw [found]

/-- A new source goes to the end if every other one comes before it. -/
theorem sourceNames_includeSource_last {index : OriginIndex} {source : String}
    (absent : source ∉ index.sourceNames)
    (last : ∀ other ∈ index.sourceNames,
      compareSources index.order other source = some .lt) :
    (index.includeSource source).sourceNames = index.sourceNames ++ [source] := by
  have missing : index.lines? source = none :=
    (OrderedMap.get?_eq_none_iff index.sources source).mpr absent
  have appended := OrderedMap.entries_insert_last (OrderedMap.empty : LineTable) absent last
  unfold includeSource
  rw [missing]
  simp [sourceNames, setLines, OrderedMap.keys, appended]

/-- Making sure of a source leaves the order of the sources as it is. -/
@[simp] theorem order_includeSource (index : OriginIndex) (source : String) :
    (index.includeSource source).order = index.order := by
  unfold includeSource
  split <;> rfl

/-- One more source of the list goes to the end, unless it is there already. -/
theorem sourceNames_includeSource_next {index : OriginIndex} {source : String}
    {before after : List String} (ordered : index.order = before ++ source :: after)
    (names : index.sourceNames = before.eraseDups) :
    (index.includeSource source).sourceNames = (before ++ [source]).eraseDups := by
  rw [eraseDups_concat]
  split
  · rename_i seen
    have present : source ∈ index.sourceNames := by
      rw [names]
      exact List.mem_eraseDups.mpr seen
    rw [includeSource_of_mem present, names]
  · rename_i fresh
    have absent : source ∉ index.sourceNames := by
      rw [names]
      exact fun member => fresh (List.mem_eraseDups.mp member)
    have last : ∀ other ∈ index.sourceNames,
        compareSources index.order other source = some .lt := by
      intro other member
      rw [names] at member
      rw [ordered]
      exact compareSources_of_mem_prefix (List.mem_eraseDups.mp member) fresh
    rw [sourceNames_includeSource_last absent last, names]

/-- Making sure of the sources of the list one after the other puts each at the
end, once.

Proof: by induction on what is left of the list. What is there so far are the
entries before it without repetitions; the next entry is among them, or comes
after all of them, since the list mentions each of them before. -/
theorem sourceNames_foldl_includeSource (after : List String) {index : OriginIndex}
    {before : List String} (ordered : index.order = before ++ after)
    (names : index.sourceNames = before.eraseDups) :
    (after.foldl includeSource index).sourceNames = (before ++ after).eraseDups := by
  induction after generalizing before index with
  | nil => simpa using names
  | cons source rest inductionHypothesis =>
    have regrouped : before ++ source :: rest = before ++ [source] ++ rest := by simp
    rw [List.foldl_cons, regrouped]
    apply inductionHypothesis
    · rw [order_includeSource, ordered, regrouped]
    · exact sourceNames_includeSource_next ordered names

/-- The index of a list of sources lists each of them once. -/
theorem sourceNames_ofSources (sources : List String) :
    (ofSources sources).sourceNames = sources.eraseDups := by
  have ordered : (empty sources).order = [] ++ sources := rfl
  exact sourceNames_foldl_includeSource sources ordered rfl

/-- Including sources is sound. -/
theorem sound_ofSources (sources : List String) : (ofSources sources).Sound :=
  List.foldlRecOn sources _ (sound_empty sources) fun _ sound source _ => sound.includeSource source

/-- The index of a list of sources stores nothing. -/
theorem stored?_ofSources (sources : List String) (source : String) (line column : Number) :
    (ofSources sources).stored? source line column = none := by
  refine List.foldlRecOn (motive := fun index => index.stored? source line column = none)
    sources includeSource ?_ ?_
  · rfl
  · intro index nothing next _
    rw [stored?_includeSource, nothing]

/-- The index of a list of sources has no lines. -/
theorem not_hasLine_ofSources (sources : List String) (source : String) (line : Number) :
    ¬(ofSources sources).HasLine source line := by
  refine List.foldlRecOn (motive := fun index => ¬HasLine index source line)
    sources includeSource ?_ ?_
  · rintro ⟨lines, found, _⟩
    simp [lines?, empty] at found
  · rintro index nothing next _ ⟨lines, found, member⟩
    rw [lines?_includeSource] at found
    by_cases same : source = next
    · subst same
      rw [if_pos rfl, Option.some.injEq] at found
      subst found
      cases stored : index.lines? source with
      | none => simp [stored, OrderedMap.keys, OrderedMap.empty] at member
      | some lines => exact nothing ⟨lines, stored, by simpa [stored] using member⟩
    · rw [if_neg same] at found
      exact nothing ⟨lines, found, member⟩

/-- Adding mappings appends, at each origin, the targets that stem from it. An
origin that no mapping stems from keeps what was stored there, also if that is
an empty list. -/
theorem stored?_foldl_addMapping (mappings : List Mapping) (index : OriginIndex) (source : String)
    (line column : Number) :
    (mappings.foldl addMapping index).stored? source line column =
      if Mapping.targetsAt mappings source line column = [] then index.stored? source line column
      else some (index.targetsAt source line column ++
        Mapping.targetsAt mappings source line column) := by
  induction mappings generalizing index with
  | nil => rfl
  | cons mapping rest inductionHypothesis =>
    have first := stored?_append index mapping.source mapping.line mapping.column [mapping.target]
      source line column
    have split : Mapping.targetsAt (mapping :: rest) source line column =
        Mapping.targetsAt [mapping] source line column ++
          Mapping.targetsAt rest source line column :=
      Mapping.targetsAt_append [mapping] rest source line column
    rw [List.foldl_cons, inductionHypothesis, targetsAt_eq, addMapping, add, first, split]
    by_cases here : source = mapping.source ∧ line = mapping.line ∧ column = mapping.column
    · obtain ⟨rfl, rfl, rfl⟩ := here
      have single : Mapping.targetsAt [mapping] mapping.source mapping.line mapping.column =
          [mapping.target] := by simp [Mapping.targetsAt, Mapping.isAt]
      by_cases nothing : Mapping.targetsAt rest mapping.source mapping.line mapping.column = []
      · simp [single, nothing]
      · simp [single, nothing]
    · have single : Mapping.targetsAt [mapping] source line column = [] := by
        apply Mapping.targetsAt_eq_nil
        rintro other member ⟨rfl, rfl, rfl⟩
        obtain rfl := List.mem_singleton.mp member
        exact here ⟨rfl, rfl, rfl⟩
      simp [single, here, targetsAt_eq]

/-- An index of mappings stores at each origin the targets that stem from it,
and no empty list. -/
theorem stored?_ofMappings (sources : List String) (mappings : List Mapping) (source : String)
    (line column : Number) :
    (ofMappings sources mappings).stored? source line column =
      if Mapping.targetsAt mappings source line column = [] then none
      else some (Mapping.targetsAt mappings source line column) := by
  rw [ofMappings, stored?_foldl_addMapping, stored?_ofSources, targetsAt_eq, stored?_ofSources]
  rfl

/-- An origin has the targets that are stored there, also if nothing is stored
for no targets. -/
theorem targetsAt_of_stored? {index : OriginIndex} {source : String} {line column : Number}
    {targets : List Target}
    (stored : index.stored? source line column = if targets = [] then none else some targets) :
    index.targetsAt source line column = targets := by
  rw [targetsAt_eq, stored]
  by_cases nothing : targets = []
  · simp [nothing]
  · simp [nothing]

/-- An index of mappings has at each origin the targets that stem from it, in
their order. -/
theorem targetsAt_ofMappings (sources : List String) (mappings : List Mapping) (source : String)
    (line column : Number) :
    (ofMappings sources mappings).targetsAt source line column =
      Mapping.targetsAt mappings source line column :=
  targetsAt_of_stored? (stored?_ofMappings sources mappings source line column)

/-- Adding a mapping makes sure of its line. -/
theorem hasLine_addMapping (index : OriginIndex) (mapping : Mapping) (source : String)
    (line : Number) :
    (index.addMapping mapping).HasLine source line ↔
      (mapping.source = source ∧ mapping.line = line) ∨ index.HasLine source line := by
  rw [HasLine, addMapping, add, lines?_append]
  by_cases same : source = mapping.source
  · subst same
    rw [if_pos rfl]
    have keys := LineTable.mem_keys_append ((index.lines? mapping.source).getD .empty)
      mapping.line mapping.column [mapping.target] line
    cases found : index.lines? mapping.source with
    | none =>
      rw [found] at keys
      simpa [HasLine, found, OrderedMap.keys, OrderedMap.empty, eq_comm] using keys
    | some lines =>
      rw [found] at keys
      simpa [HasLine, found, eq_comm] using keys
  · rw [if_neg same, HasLine]
    simp [Ne.symm same]

/-- Adding mappings makes sure of their lines. -/
theorem hasLine_foldl_addMapping (mappings : List Mapping) (index : OriginIndex)
    (source : String) (line : Number) :
    (mappings.foldl addMapping index).HasLine source line ↔
      (∃ mapping ∈ mappings, mapping.source = source ∧ mapping.line = line) ∨
        index.HasLine source line := by
  induction mappings generalizing index with
  | nil => simp
  | cons mapping rest inductionHypothesis =>
    rw [List.foldl_cons, inductionHypothesis, hasLine_addMapping]
    simp only [List.mem_cons, exists_eq_or_imp]
    rw [or_assoc]
    exact or_left_comm

/-- The lines of an index of mappings are those that a mapping stems from. -/
theorem hasLine_ofMappings (sources : List String) (mappings : List Mapping) (source : String)
    (line : Number) :
    (ofMappings sources mappings).HasLine source line ↔
      ∃ mapping ∈ mappings, mapping.source = source ∧ mapping.line = line := by
  rw [ofMappings, hasLine_foldl_addMapping]
  exact or_iff_left (not_hasLine_ofSources sources source line)

/-- Mappings of listed sources leave the list of sources as it is. The condition
is what reading a text guarantees: a source index is looked up in the table. -/
theorem sourceNames_ofMappings {sources : List String} {mappings : List Mapping}
    (listed : ∀ mapping ∈ mappings, mapping.source ∈ sources) :
    (ofMappings sources mappings).sourceNames = sources.eraseDups := by
  refine List.foldlRecOn (motive := fun index => sourceNames index = sources.eraseDups)
    mappings addMapping (sourceNames_ofSources sources) ?_
  intro index names mapping member
  have present : mapping.source ∈ index.sourceNames := by
    rw [names]
    exact List.mem_eraseDups.mpr (listed mapping member)
  exact (sourceNames_append present _ _ _).trans names

/-- The index of a list of sources has no mappings. -/
theorem mappings_ofSources (sources : List String) : (ofSources sources).mappings = [] := by
  by_contra inhabited
  obtain ⟨mapping, member⟩ := List.exists_mem_of_ne_nil _ inhabited
  have stored := (ofSources sources).targetsAt_mappings mapping.source mapping.line mapping.column
  rw [targetsAt_eq, stored?_ofSources] at stored
  have listed : mapping ∈ (ofSources sources).mappings.filter
      (Mapping.isAt mapping.source mapping.line mapping.column) := by
    simp [member, Mapping.isAt]
  rw [List.map_eq_nil_iff.mp stored] at listed
  simp at listed

/-- Adding mappings lists each of them once, beside those that were there. The
order of the list is that of the origins and not that of the additions, so this
is an equality up to order; at one origin the order is that of the additions. -/
theorem mappings_foldl_addMapping_perm (mappings : List Mapping) (index : OriginIndex) :
    (mappings.foldl addMapping index).mappings.Perm (mappings ++ index.mappings) := by
  induction mappings generalizing index with
  | nil => exact List.Perm.refl _
  | cons mapping rest inductionHypothesis =>
    have first : (index.addMapping mapping).mappings.Perm (mapping :: index.mappings) :=
      index.mappings_append_perm mapping.source mapping.line mapping.column [mapping.target]
    have later : (rest.foldl addMapping (index.addMapping mapping)).mappings.Perm
        (rest ++ (index.addMapping mapping).mappings) :=
      inductionHypothesis _
    refine later.trans ((List.Perm.append_left rest first).trans ?_)
    exact List.perm_middle

/-- An index of mappings lists each of them once. -/
theorem mappings_ofMappings_perm (sources : List String) (mappings : List Mapping) :
    (ofMappings sources mappings).mappings.Perm mappings := by
  have listed := mappings_foldl_addMapping_perm mappings (ofSources sources)
  rwa [mappings_ofSources, List.append_nil] at listed

/-- An index of mappings has as many targets as there are mappings. -/
theorem count_ofMappings (sources : List String) (mappings : List Mapping) :
    (ofMappings sources mappings).count = mappings.length := by
  rw [count_eq, (mappings_ofMappings_perm sources mappings).length_eq]

end OriginIndex
end SourceMap

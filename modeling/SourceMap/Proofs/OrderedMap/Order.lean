import SourceMap.Proofs.OrderedMap.Lookup

/-!
# The order of an ordered map

Where the comparison is a strict order on the keys in play, the halving search
finds the one place that keeps the list in order, so a map lists its keys in
ascending order after any insertions. Rebuilding a map in order then repeats its
list entry by entry.

The keys in play are given by a predicate, since no comparison here orders all
keys: numbers are in order without the undefined one, and sources if they have
names. The list of a sound map ascends if all its keys are in play. That is a
premise and no part of soundness, so an insertion of any key keeps a map sound,
and a map that has got another key is sound without being in order. Two sound maps
of keys in play are equal if no look-up tells them apart; this is how equality of
indexes is proved throughout, level by level.
-/

namespace SourceMap.OrderedMap

variable {κ α β γ : Type} {compare : κ → κ → Option Ordering}

/-- The keys that a comparison puts in a strict order. What it says of two equal
keys does not matter. -/
structure StrictOrder (compare : κ → κ → Option Ordering) (valid : κ → Prop) : Prop where
  /-- Of two different keys one comes first, seen from either side. -/
  connected : ∀ left right, valid left → valid right → left ≠ right →
    (compare left right = some .lt ∧ compare right left = some .gt) ∨
      (compare left right = some .gt ∧ compare right left = some .lt)
  /-- A key before one that is before a third comes before the third. -/
  transitive : ∀ first second third, valid first → valid second → valid third →
    first ≠ second → second ≠ third →
    compare first second = some .lt → compare second third = some .lt →
    compare first third = some .lt

/-- Entries in strictly ascending order of their keys. -/
def Ascending (compare : κ → κ → Option Ordering) (entries : List (κ × α)) : Prop :=
  entries.Pairwise fun left right => left.1 ≠ right.1 ∧ compare left.1 right.1 = some .lt

/-- The search finds the place up to which its test holds, wherever that is.

Proof: by induction along the search. Each round compares the middle with the
cut, and the half that is kept still holds the cut; so when the interval is
empty both of its ends are the cut. -/
theorem searchBetween_eq (test : Nat → Bool) {low cut high : Nat}
    (lower : low ≤ cut) (upper : cut ≤ high)
    (holds : ∀ place, low ≤ place → place < cut → test place = true)
    (fails : ∀ place, cut ≤ place → place < high → test place = false) :
    searchBetween test low high = cut := by
  fun_induction searchBetween test low high with
  | case1 low high nonempty middle passed inductionHypothesis =>
    have before : middle < cut := by
      by_contra reached
      have failed := fails middle (Nat.le_of_not_lt reached) (by omega)
      simp [passed] at failed
    exact inductionHypothesis (by omega) upper
      (fun place above below => holds place (by omega) below) fails
  | case2 low high nonempty middle failed inductionHypothesis =>
    have reached : cut ≤ middle := by
      by_contra before
      exact failed (holds middle (by omega) (by omega))
    exact inductionHypothesis lower reached holds
      (fun place above below => fails place above (by omega))
  | case3 low high empty => omega

/-- The place of a new key is the end of the part of the list that does not come
after it. -/
theorem insertionPoint_append {before after : List (κ × α)} {key : κ}
    (holds : ∀ entry ∈ before, precedes compare entry.1 key = true)
    (fails : ∀ entry ∈ after, precedes compare entry.1 key = false) :
    insertionPoint compare (before ++ after) key = before.length := by
  refine searchBetween_eq _ (Nat.zero_le _) (by simp) ?_ ?_
  · intro place _ inside
    rw [List.getElem?_append_left inside, List.getElem?_eq_getElem inside]
    exact holds _ (List.getElem_mem inside)
  · intro place reached inside
    have bounded : place - before.length < after.length := by
      rw [List.length_append] at inside
      omega
    rw [List.getElem?_append_right reached, List.getElem?_eq_getElem bounded]
    exact fails _ (List.getElem_mem bounded)

/-- A key that is not in an ascending list cuts it in two: the keys of the first
part come before the new one, and those of the second part after it, seen from
either side.

Proof: by induction on the list. If the head comes before the key the cut is
further on; if it comes after the key, so does the rest by transitivity, and the
cut is right here. There is no third case, since two different valid keys are
connected. -/
theorem ascending_cut {valid : κ → Prop} (order : StrictOrder compare valid)
    {entries : List (κ × α)} (ascending : Ascending compare entries) {key : κ}
    (fresh : key ∉ entries.map Prod.fst) (validKey : valid key)
    (validEntries : ∀ entry ∈ entries, valid entry.1) :
    ∃ before after, entries = before ++ after ∧
      (∀ entry ∈ before, compare entry.1 key = some .lt) ∧
      ∀ entry ∈ after, compare entry.1 key = some .gt ∧ compare key entry.1 = some .lt := by
  induction entries with
  | nil => exact ⟨[], [], rfl, by simp, by simp⟩
  | cons entry rest inductionHypothesis =>
    have different : entry.1 ≠ key := fun same => fresh (by simp [same])
    have freshRest : key ∉ rest.map Prod.fst := fun member =>
      fresh (List.mem_cons_of_mem entry.1 member)
    have validEntry : valid entry.1 := validEntries entry List.mem_cons_self
    have validRest : ∀ next ∈ rest, valid next.1 := fun next member =>
      validEntries next (List.mem_cons_of_mem entry member)
    obtain ⟨above, ascendingRest⟩ := List.pairwise_cons.mp ascending
    rcases order.connected entry.1 key validEntry validKey different with
      ⟨less, _⟩ | ⟨greater, less⟩
    · obtain ⟨before, after, split, lower, upper⟩ :=
        inductionHypothesis ascendingRest freshRest validRest
      refine ⟨entry :: before, after, by rw [split, List.cons_append], ?_, upper⟩
      intro other member
      rcases List.mem_cons.mp member with rfl | member
      · exact less
      · exact lower other member
    · refine ⟨[], entry :: rest, rfl, by simp, ?_⟩
      intro other member
      rcases List.mem_cons.mp member with rfl | member
      · exact ⟨greater, less⟩
      · -- The first entry already comes after the key, and the others after the first.
        have further : compare key other.1 = some .lt :=
          order.transitive key entry.1 other.1 validKey validEntry (validRest other member)
            (Ne.symm different) (above other member).1 less (above other member).2
        have apart : key ≠ other.1 := fun same =>
          freshRest (same ▸ List.mem_map_of_mem (f := Prod.fst) member)
        rcases order.connected key other.1 validKey (validRest other member) apart with
          ⟨_, back⟩ | ⟨forth, _⟩
        · exact ⟨back, further⟩
        · simp [further] at forth

/-- Entries with valid keys have one ascending order only: two ascending lists
of the same entries are equal. -/
theorem Ascending.eq_of_mem_iff {valid : κ → Prop} (order : StrictOrder compare valid)
    {entries others : List (κ × α)} (ascending : Ascending compare entries)
    (othersAscending : Ascending compare others) (validEntries : ∀ entry ∈ entries, valid entry.1)
    (same : ∀ entry, entry ∈ entries ↔ entry ∈ others) : entries = others := by
  have nodup {listed : List (κ × α)} (isAscending : Ascending compare listed) : listed.Nodup :=
    isAscending.imp fun less equal => less.1 (congrArg Prod.fst equal)
  have perm : entries.Perm others :=
    (List.perm_ext_iff_of_nodup (nodup ascending) (nodup othersAscending)).mpr same
  refine List.Perm.eq_of_pairwise ?_ ascending othersAscending perm
  intro first second here there less greater
  -- No two keys come before each other, so the case does not arise.
  rcases order.connected first.1 second.1 (validEntries first here)
    (validEntries second ((same second).mpr there)) less.1 with ⟨_, back⟩ | ⟨forth, _⟩
  · simp [greater.2] at back
  · simp [less.2] at forth

variable [DecidableEq κ]

/-- A new key goes where the keys of the list begin to come after it. -/
theorem entries_insert_cut {map : OrderedMap compare α} {key : κ} (value : α)
    (absent : key ∉ map.keys) {before after : List (κ × α)}
    (split : map.entries = before ++ after)
    (holds : ∀ entry ∈ before, precedes compare entry.1 key = true)
    (fails : ∀ entry ∈ after, precedes compare entry.1 key = false) :
    (map.insert key value).entries = before ++ (key, value) :: after := by
  have place : insertionPoint compare map.entries key = before.length := by
    rw [split]
    exact insertionPoint_append holds fails
  obtain ⟨start, rest, again, length, inserted⟩ := entries_insert_new value absent
  obtain ⟨rfl, rfl⟩ : start = before ∧ rest = after :=
    List.append_inj (again.symm.trans split) (length.trans place)
  exact inserted

/-- A new key goes between the keys that come before it and those that come
after it. -/
theorem entries_insert_between {map : OrderedMap compare α} {key : κ} (value : α)
    (absent : key ∉ map.keys) {before after : List (κ × α)}
    (split : map.entries = before ++ after)
    (lower : ∀ entry ∈ before, compare entry.1 key = some .lt)
    (upper : ∀ entry ∈ after, compare entry.1 key = some .gt) :
    (map.insert key value).entries = before ++ (key, value) :: after := by
  apply entries_insert_cut value absent split
  · intro entry member
    simp [precedes, lower entry member]
  · intro entry member
    simp [precedes, upper entry member]

/-- A key that comes after all others goes to the end of the list. -/
theorem entries_insert_last {map : OrderedMap compare α} {key : κ} (value : α)
    (absent : key ∉ map.keys) (last : ∀ other ∈ map.keys, compare other key = some .lt) :
    (map.insert key value).entries = map.entries ++ [(key, value)] := by
  apply entries_insert_between value absent (List.append_nil _).symm
  · intro entry member
    exact last entry.1 (List.mem_map_of_mem member)
  · simp

/-- Another value for a key that is there keeps a map in ascending order. -/
theorem ascending_insert_present {map : OrderedMap compare α}
    (ascending : Ascending compare map.entries) {key : κ} (value : α)
    (present : key ∈ map.keys) : Ascending compare (map.insert key value).entries := by
  rw [entries_insert_present value present, Ascending, Entries.set, List.pairwise_map]
  apply ascending.imp
  intro left right less
  by_cases first : left.1 = key
  · by_cases second : right.1 = key
    · exact absurd (first.trans second.symm) less.1
    · simpa [first, second] using less
  · by_cases second : right.1 = key
    · simpa [first, second] using less
    · simpa [first, second] using less

/-- An insertion keeps a map in ascending order. A key that is there keeps its
place and a new one is put at the cut of the list, so neither way needs the list
to be sorted again. -/
theorem ascending_insert {valid : κ → Prop} (order : StrictOrder compare valid)
    {map : OrderedMap compare α} (ascending : Ascending compare map.entries) (key : κ) (value : α)
    (validKey : valid key) (validKeys : ∀ other ∈ map.keys, valid other) :
    Ascending compare (map.insert key value).entries := by
  by_cases present : key ∈ map.keys
  · exact ascending_insert_present ascending value present
  · have validEntries : ∀ entry ∈ map.entries, valid entry.1 := fun entry member =>
      validKeys entry.1 (List.mem_map_of_mem member)
    obtain ⟨before, after, split, lower, upper⟩ :=
      ascending_cut order ascending present validKey validEntries
    have apart : ∀ entry ∈ before ++ after, key ≠ entry.1 := by
      intro entry member same
      exact present (same ▸ List.mem_map_of_mem (f := Prod.fst) (split ▸ member))
    rw [entries_insert_between value present split lower fun entry member => (upper entry member).1]
    rw [split] at ascending
    obtain ⟨ascendingBefore, ascendingAfter, across⟩ := List.pairwise_append.mp ascending
    apply List.pairwise_append.mpr
    refine ⟨ascendingBefore, List.pairwise_cons.mpr ⟨?_, ascendingAfter⟩, ?_⟩
    · intro entry member
      exact ⟨apart entry (List.mem_append_right _ member), (upper entry member).2⟩
    · intro left member right found
      rcases List.mem_cons.mp found with rfl | found
      · exact ⟨Ne.symm (apart left (List.mem_append_left _ member)), lower left member⟩
      · exact across left member right found

/-- Inserting entries whose keys ascend past those of the map puts each at the
end. -/
theorem entries_foldl_insert (entries : List (κ × α)) {map : OrderedMap compare α}
    (ascending : Ascending compare (map.entries ++ entries)) :
    (entries.foldl (fun built entry => built.insert entry.1 entry.2) map).entries =
      map.entries ++ entries := by
  induction entries generalizing map with
  | nil => simp
  | cons entry rest inductionHypothesis =>
    have before : ∀ other ∈ map.keys, other ≠ entry.1 ∧ compare other entry.1 = some .lt := by
      intro other member
      obtain ⟨found, listed, rfl⟩ := List.mem_map.mp member
      exact (List.pairwise_append.mp ascending).2.2 found listed entry List.mem_cons_self
    have inserted : (map.insert entry.1 entry.2).entries = map.entries ++ [entry] :=
      entries_insert_last entry.2 (fun member => (before entry.1 member).1 rfl)
        (fun other member => (before other member).2)
    rw [List.append_cons, ← inserted] at ascending ⊢
    exact inductionHypothesis ascending

/-- Rebuilding a map in ascending order changes its values and leaves the keys
where they are. -/
theorem entries_rebuild (change : α → β) {map : OrderedMap compare α}
    (ascending : Ascending compare map.entries) :
    (map.rebuild change).entries = map.entries.map fun entry => (entry.1, change entry.2) := by
  have changed : Ascending compare
      ((empty : OrderedMap compare β).entries ++
        map.entries.map fun entry => (entry.1, change entry.2)) := by
    simpa [empty, Ascending, List.pairwise_map] using ascending
  have whole := entries_foldl_insert _ changed
  rw [List.foldl_map] at whole
  simpa [rebuild, empty] using whole

/-- What every map has that insertions build: the list is in ascending order if
all keys are valid, and every value is good. The condition on the keys is a
premise and not a part of soundness, so that an insertion of any key keeps a map
sound. -/
structure Sound (valid : κ → Prop) (good : α → Prop) (map : OrderedMap compare α) : Prop where
  ascending : (∀ key ∈ map.keys, valid key) → Ascending compare map.entries
  values : ∀ value ∈ map.values, good value

namespace Sound

variable {valid : κ → Prop} {good : α → Prop}

/-- The map without entries is sound. -/
theorem empty : Sound valid good (OrderedMap.empty : OrderedMap compare α) where
  ascending := fun _ => List.Pairwise.nil
  values := fun _ member => by simp [OrderedMap.values, OrderedMap.empty] at member

/-- Inserting a good value keeps a map sound. -/
theorem insert (order : StrictOrder compare valid) {map : OrderedMap compare α}
    (sound : Sound valid good map) (key : κ) {value : α} (goodValue : good value) :
    Sound valid good (map.insert key value) where
  ascending := by
    intro validKeys
    have validKey : valid key :=
      validKeys key ((mem_keys_insert map key value key).mpr (Or.inl rfl))
    have validEarlier : ∀ other ∈ map.keys, valid other := fun other member =>
      validKeys other ((mem_keys_insert map key value other).mpr (Or.inr member))
    exact ascending_insert order (sound.ascending validEarlier) key value validKey validEarlier
  values := by
    intro other member
    rcases mem_values_insert member with rfl | earlier
    · exact goodValue
    · exact sound.values other earlier

/-- A value that is found in a sound map is good. -/
theorem get? {map : OrderedMap compare α} (sound : Sound valid good map) {key : κ} {value : α}
    (found : map.get? key = some value) : good value :=
  sound.values value (mem_values_of_get? found)

/-- A map rebuilt from good values is sound, whatever the map was. -/
theorem rebuild (order : StrictOrder compare valid) {change : β → α}
    {map : OrderedMap compare β} (goodValues : ∀ value ∈ map.values, good (change value)) :
    Sound valid good (map.rebuild change) := by
  refine List.foldlRecOn (motive := fun built => Sound valid good built) map.entries _ empty ?_
  intro built sound entry member
  exact sound.insert order entry.1 (goodValues entry.2 (List.mem_map_of_mem member))

/-- Sound maps of valid keys are equal, and list their keys in the same order,
if no look-up tells them apart. -/
theorem eq_of_get?_eq (order : StrictOrder compare valid) {map other : OrderedMap compare α}
    (sound : Sound valid good map) (otherSound : Sound valid good other)
    (validKeys : ∀ key ∈ map.keys, valid key) (same : ∀ key, map.get? key = other.get? key) :
    map = other := by
  have otherKeys : ∀ key ∈ other.keys, valid key := by
    intro key member
    rw [mem_keys_iff, contains, ← same key] at member
    exact validKeys key ((mem_keys_iff map key).mpr member)
  have entries : map.entries = other.entries := by
    refine (sound.ascending validKeys).eq_of_mem_iff order (otherSound.ascending otherKeys)
      (fun entry member => validKeys entry.1 (List.mem_map_of_mem member)) ?_
    rintro ⟨key, value⟩
    rw [mem_entries_iff, mem_entries_iff, same]
  exact ext entries

/-- Sound maps of valid keys are equal if looking further into the values does
not tell them apart, as long as there is something to be found in each value,
and values that look alike are equal. The first of these conditions is needed:
an empty value cannot be told from one that is not there, so a map with an empty
inner table looks like one without it. -/
theorem eq_of_bind_eq (order : StrictOrder compare valid) {map other : OrderedMap compare α}
    (sound : Sound valid good map) (otherSound : Sound valid good other)
    (validKeys : ∀ key ∈ map.keys, valid key) (look : α → β → Option γ)
    (filled : ∀ value ∈ map.values, ∃ place, (look value place).isSome = true)
    (otherFilled : ∀ value ∈ other.values, ∃ place, (look value place).isSome = true)
    (faithful : ∀ left ∈ map.values, ∀ right ∈ other.values, look left = look right → left = right)
    (same : ∀ key place,
      (map.get? key).bind (look · place) = (other.get? key).bind (look · place)) :
    map = other := by
  refine sound.eq_of_get?_eq order otherSound validKeys fun key => ?_
  have alike := same key
  cases here : map.get? key with
  | none =>
    cases there : other.get? key with
    | none => rfl
    | some right =>
      obtain ⟨place, found⟩ := otherFilled right (mem_values_of_get? there)
      have nothing : none = look right place := by simpa [here, there] using alike place
      rw [← nothing] at found
      cases found
  | some left =>
    have leftMember := mem_values_of_get? here
    cases there : other.get? key with
    | none =>
      obtain ⟨place, found⟩ := filled left leftMember
      have nothing : look left place = none := by simpa [here, there] using alike place
      rw [nothing] at found
      cases found
    | some right =>
      have looksAlike : look left = look right := by
        funext place
        simpa [here, there] using alike place
      rw [faithful left leftMember right (mem_values_of_get? there) looksAlike]

end Sound

end SourceMap.OrderedMap

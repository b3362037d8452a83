import Mathlib
import SourceMap.OrderedMap

/-!
# Look-up in ordered maps

What an insertion does to the keys and the values of a map. None of these laws
needs an order: they hold wherever the search puts a new key. A look-up goes to
the table of a map and a listing to its list; as the two agree and no key has two
entries, the entries that are listed are those that a look-up finds.

That no order is needed matters where a key is the undefined number. It compares
with nothing, the search puts it somewhere, and the list is in no order any more;
yet every value stays found under its key, and what is counted or collected over
all entries changes only by the entry that an insertion exchanges. Results that
hold for all keys rest on this module, and those about ascending lists on
`OrderedMap.Order`.
-/

namespace SourceMap.OrderedMap

variable {κ α β σ : Type} {compare : κ → κ → Option Ordering} [DecidableEq κ]

/-- Nothing is found in the map without entries. -/
@[simp] theorem get?_empty (key : κ) : (empty : OrderedMap compare α).get? key = none := rfl

/-- A key without a value is not listed. -/
theorem get?_eq_none_iff (map : OrderedMap compare α) (key : κ) :
    map.get? key = none ↔ key ∉ map.keys := by
  rw [get?_eq_lookup, Entries.lookup_eq_none_iff, keys]

/-- A key is listed exactly if it has a value. -/
theorem mem_keys_iff (map : OrderedMap compare α) (key : κ) :
    key ∈ map.keys ↔ map.contains key = true := (map.contains_eq_true_iff key).symm

/-- A new key is put somewhere in the list, and nothing else changes. -/
theorem entries_insert_new {map : OrderedMap compare α} {key : κ} (value : α)
    (absent : key ∉ map.keys) :
    ∃ before after, map.entries = before ++ after ∧
      before.length = insertionPoint compare map.entries key ∧
      (map.insert key value).entries = before ++ (key, value) :: after := by
  have missing : map.contains key = false := by
    simpa [mem_keys_iff] using absent
  have length : (map.entries.take (insertionPoint compare map.entries key)).length =
      insertionPoint compare map.entries key :=
    List.length_take_of_le (insertionPoint_le map.entries key)
  refine ⟨map.entries.take (insertionPoint compare map.entries key),
    map.entries.drop (insertionPoint compare map.entries key),
    (List.take_append_drop _ _).symm, length, ?_⟩
  rw [← Entries.insertIdx_length_append, List.take_append_drop, length, entries_insert, missing]
  rfl

/-- A key that has a value keeps its place. -/
theorem entries_insert_present {map : OrderedMap compare α} {key : κ} (value : α)
    (present : key ∈ map.keys) :
    (map.insert key value).entries = Entries.set key value map.entries := by
  rw [entries_insert, if_pos ((mem_keys_iff map key).mp present)]

/-- The keys after an insertion, where the key is new: one more, somewhere. -/
theorem keys_insert_new {map : OrderedMap compare α} {key : κ} (value : α)
    (absent : key ∉ map.keys) : (map.insert key value).keys.Perm (key :: map.keys) := by
  obtain ⟨before, after, split, _, inserted⟩ := entries_insert_new value absent
  simp only [keys, inserted, split, List.map_append, List.map_cons]
  exact List.perm_middle

/-- The keys after an insertion, where the key is there already: the same. -/
theorem keys_insert_present {map : OrderedMap compare α} {key : κ} (value : α)
    (present : key ∈ map.keys) : (map.insert key value).keys = map.keys := by
  rw [keys, entries_insert_present value present, Entries.keys_set, keys]

/-- The keys after an insertion are the earlier ones and the new one. -/
theorem mem_keys_insert (map : OrderedMap compare α) (key : κ) (value : α) (other : κ) :
    other ∈ (map.insert key value).keys ↔ other = key ∨ other ∈ map.keys := by
  by_cases present : key ∈ map.keys
  · rw [keys_insert_present value present]
    constructor
    · exact Or.inr
    · rintro (rfl | member)
      · exact present
      · exact member
  · rw [(keys_insert_new value present).mem_iff, List.mem_cons]

/-- Where no key occurs twice, the entries are those that a look-up finds. -/
theorem mem_iff_lookup {entries : List (κ × α)} (distinct : (entries.map Prod.fst).Nodup) (key : κ)
    (value : α) : (key, value) ∈ entries ↔ entries.lookup key = some value := by
  induction entries with
  | nil => simp
  | cons entry rest inductionHypothesis =>
    have headAbsent : entry.1 ∉ rest.map Prod.fst := (List.nodup_cons.mp distinct).1
    have tail := inductionHypothesis (List.nodup_cons.mp distinct).2
    rw [List.mem_cons, Entries.lookup_cons]
    by_cases same : key = entry.1
    · have notLater : (key, value) ∉ rest := by
        intro member
        exact headAbsent (same ▸ List.mem_map_of_mem (f := Prod.fst) member)
      simp [same ▸ notLater, same, Prod.ext_iff, eq_comm]
    · have different : (key, value) ≠ entry := fun equal => same (congrArg Prod.fst equal)
      simp [same, different, tail]

/-- A look-up does not depend on where the one entry of a key stands. -/
theorem lookup_eq_of_perm {entries others : List (κ × α)} (perm : entries.Perm others)
    (distinct : (entries.map Prod.fst).Nodup) (key : κ) :
    entries.lookup key = others.lookup key := by
  have othersDistinct : (others.map Prod.fst).Nodup := (perm.map Prod.fst).nodup_iff.mp distinct
  refine Option.ext fun value => ?_
  exact (mem_iff_lookup distinct key value).symm.trans
    (perm.mem_iff.trans (mem_iff_lookup othersDistinct key value))

/-- The listed entries are those that a look-up finds. -/
theorem mem_entries_iff (map : OrderedMap compare α) (key : κ) (value : α) :
    (key, value) ∈ map.entries ↔ map.get? key = some value := by
  rw [get?_eq_lookup]
  exact mem_iff_lookup map.distinct key value

/-- A value that a look-up finds is listed. -/
theorem mem_values_of_get? {map : OrderedMap compare α} {key : κ} {value : α}
    (found : map.get? key = some value) : value ∈ map.values :=
  List.mem_map_of_mem (f := Prod.snd) ((mem_entries_iff map key value).mpr found)

/-- A listed value is found under its key. -/
theorem get?_of_mem_entries {map : OrderedMap compare α} {entry : κ × α}
    (listed : entry ∈ map.entries) : map.get? entry.1 = some entry.2 :=
  (mem_entries_iff map entry.1 entry.2).mp listed

/-- The values after an insertion are the new one and earlier ones. -/
theorem mem_values_insert {map : OrderedMap compare α} {key : κ} {value other : α}
    (member : other ∈ (map.insert key value).values) : other = value ∨ other ∈ map.values := by
  obtain ⟨⟨place, stored⟩, listed, rfl⟩ := List.mem_map.mp member
  have found := get?_of_mem_entries listed
  rw [get?_insert] at found
  split at found
  · exact Or.inl (Option.some.inj found).symm
  · exact Or.inr (mem_values_of_get? found)

/-- An insertion exchanges the entry of its key. As multisets the entries are
the new one and those of the other keys, whatever the comparison is. -/
theorem entries_insert_perm (map : OrderedMap compare α) (key : κ) (value : α) :
    (map.insert key value).entries.Perm
      ((key, value) :: map.entries.filter fun entry => entry.1 ≠ key) := by
  have same : ∀ entry : κ × α, entry ∈ (map.insert key value).entries ↔
      entry ∈ (key, value) :: map.entries.filter fun entry => entry.1 ≠ key := by
    rintro ⟨other, found⟩
    rw [mem_entries_iff, get?_insert, List.mem_cons, List.mem_filter, mem_entries_iff]
    by_cases asked : other = key
    · simp [asked, eq_comm]
    · simp [asked]
  have unique : (map.insert key value).entries.Nodup := (map.insert key value).distinct.of_map
  have uniqueAfter : ((key, value) :: map.entries.filter fun entry => entry.1 ≠ key).Nodup := by
    refine List.nodup_cons.mpr ⟨by simp, ?_⟩
    exact (List.Nodup.of_map Prod.fst map.distinct).filter _
  exact (List.perm_ext_iff_of_nodup unique uniqueAfter).mpr same

/-- The entry of a key can be taken out. -/
theorem entries_perm_of_get? {map : OrderedMap compare α} {key : κ} {value : α}
    (found : map.get? key = some value) :
    map.entries.Perm ((key, value) :: map.entries.filter fun entry => entry.1 ≠ key) := by
  have again : (map.insert key value).entries = map.entries := by
    have present : key ∈ map.keys := by
      rw [mem_keys_iff, contains, found, Option.isSome_some]
    rw [entries_insert_present value present, Entries.set]
    refine (List.map_congr_left ?_).trans (List.map_id map.entries)
    rintro ⟨other, stored⟩ member
    by_cases same : other = key
    · subst same
      have equal := (mem_entries_iff map other stored).mp member
      rw [found] at equal
      simp [Option.some.inj equal]
    · simp [same]
  rw [← again]
  simpa [again] using entries_insert_perm map key value

/-- The entries under a key are the one that a look-up finds. -/
theorem filter_key (map : OrderedMap compare α) (key : κ) :
    map.entries.filter (fun entry => entry.1 = key) =
      ((map.get? key).map fun value => (key, value)).toList := by
  cases found : map.get? key with
  | none =>
    rw [Option.map_none, Option.toList_none, List.filter_eq_nil_iff]
    intro entry member same
    have absent := (get?_eq_none_iff map key).mp found
    exact absent (of_decide_eq_true same ▸ List.mem_map_of_mem (f := Prod.fst) member)
  | some value =>
    have perm := (entries_perm_of_get? found).filter fun entry => entry.1 = key
    simpa [List.filter_filter] using perm

/-- Rows listed for every entry of a map change under an insertion as those of
the key do. If the rows of the key grow by some further ones, so do the rows of
the whole map, up to their order. This is how a level of an index passes on what
an addition does one level below. -/
theorem flatMap_insert_perm {map : OrderedMap compare α} {key : κ} {value : α}
    (rows : κ × α → List β) (further : List β)
    (grown : (rows (key, value)).Perm
      (further ++ ((map.get? key).map fun stored => rows (key, stored)).getD [])) :
    ((map.insert key value).entries.flatMap rows).Perm (further ++ map.entries.flatMap rows) := by
  have after := (entries_insert_perm map key value).flatMap_right rows
  rw [List.flatMap_cons] at after
  apply after.trans
  cases found : map.get? key with
  | none =>
    have absent : ∀ entry ∈ map.entries, entry.1 ≠ key := by
      intro entry member same
      exact (get?_eq_none_iff map key).mp found (same ▸ List.mem_map_of_mem (f := Prod.fst) member)
    have all : (map.entries.filter fun entry => entry.1 ≠ key) = map.entries := by
      rw [List.filter_eq_self]
      intro entry member
      simpa using absent entry member
    rw [all]
    exact List.Perm.append_right _ (by simpa [found] using grown)
  | some stored =>
    have before := (entries_perm_of_get? found).flatMap_right rows
    rw [List.flatMap_cons] at before
    rw [found, Option.map_some, Option.getD_some] at grown
    apply (List.Perm.append_right _ grown).trans
    rw [List.append_assoc]
    exact List.Perm.append_left further before.symm

/-- Rows that only one key has are those of the value that a look-up finds. -/
theorem flatMap_eq_of_get? (map : OrderedMap compare α) (key : κ) (rows : κ × α → List β)
    (elsewhere : ∀ entry ∈ map.entries, entry.1 ≠ key → rows entry = []) :
    map.entries.flatMap rows = ((map.get? key).map fun value => rows (key, value)).getD [] := by
  have distinct := map.distinct
  rw [get?_eq_lookup]
  generalize map.entries = entries at distinct elsewhere ⊢
  induction entries with
  | nil => rfl
  | cons entry rest inductionHypothesis =>
    have headAbsent : entry.1 ∉ rest.map Prod.fst := (List.nodup_cons.mp distinct).1
    have tail := inductionHypothesis (List.nodup_cons.mp distinct).2
      (fun next member => elsewhere next (List.mem_cons_of_mem entry member))
    rw [List.flatMap_cons, tail, Entries.lookup_cons]
    by_cases same : key = entry.1
    · subst same
      simp [(Entries.lookup_eq_none_iff entry.1 rest).mpr headAbsent]
    · rw [elsewhere entry List.mem_cons_self (Ne.symm same), if_neg same, List.nil_append]

/-- Entries inserted one after the other, each under a key of its own, are found
beside those that were there before. -/
theorem get?_foldl_insert (change : α → β) (entries : List (κ × α))
    (distinct : (entries.map Prod.fst).Nodup) (built : OrderedMap compare β) (key : κ) :
    (entries.foldl (fun built entry => built.insert entry.1 (change entry.2)) built).get? key =
      ((List.lookup key entries).map change).or (built.get? key) := by
  induction entries generalizing built with
  | nil => rfl
  | cons entry rest inductionHypothesis =>
    have headAbsent : entry.1 ∉ rest.map Prod.fst := (List.nodup_cons.mp distinct).1
    rw [List.foldl_cons, inductionHypothesis (List.nodup_cons.mp distinct).2, get?_insert,
      Entries.lookup_cons]
    by_cases same : key = entry.1
    · subst same
      simp [(Entries.lookup_eq_none_iff entry.1 rest).mpr headAbsent]
    · simp [same]

/-- The map that arises when the keys of a map are inserted one after the other,
each with its changed value. -/
def rebuild (change : α → β) (map : OrderedMap compare α) : OrderedMap compare β :=
  map.entries.foldl (fun built entry => built.insert entry.1 (change entry.2)) empty

/-- Where the values do not depend on the state that their changes hand on, a
map is rebuilt without it; the state goes through the changes in the order of
the keys.

Proof: by induction on the list, for any map and state reached so far. Each step
inserts the image of a value and passes the state on, so the two halves of the
pair never meet. -/
theorem rebuildWith_eq {change : α → σ → β × σ} {image : α → β} {pass : σ → α → σ}
    (apart : ∀ value state, change value state = (image value, pass state value))
    (map : OrderedMap compare α) (state : σ) :
    map.rebuildWith change state = (map.rebuild image, map.values.foldl pass state) := by
  have walk (entries : List (κ × α)) (built : OrderedMap compare β) (state : σ) :
      entries.foldl (fun reached entry =>
          let changed := change entry.2 reached.2
          (reached.1.insert entry.1 changed.1, changed.2)) (built, state) =
        (entries.foldl (fun built entry => built.insert entry.1 (image entry.2)) built,
          (entries.map Prod.snd).foldl pass state) := by
    induction entries generalizing built state with
    | nil => rfl
    | cons entry rest inductionHypothesis =>
      rw [List.foldl_cons, List.foldl_cons, List.map_cons, List.foldl_cons,
        ← inductionHypothesis]
      simp only [apart]
  exact walk map.entries empty state

/-- Rebuilding a map changes every value and no key. The new map may list its
keys in another order if some of them are incomparable, and look-up does not
notice. -/
theorem get?_rebuild (change : α → β) (map : OrderedMap compare α) (key : κ) :
    (map.rebuild change).get? key = (map.get? key).map change := by
  rw [rebuild, get?_foldl_insert change map.entries map.distinct, get?_empty, Option.or_none,
    get?_eq_lookup]

/-- Entries inserted into a map without entries, each under a key of its own,
are its entries, wherever they go. Without an order this is all that can be said
of the list; with one, `entries_foldl_insert` says where they go. -/
theorem entries_foldl_insert_perm (change : α → β) {entries : List (κ × α)}
    (distinct : (entries.map Prod.fst).Nodup) :
    (entries.foldl (fun built entry => built.insert entry.1 (change entry.2))
      (empty : OrderedMap compare β)).entries.Perm
      (entries.map fun entry => (entry.1, change entry.2)) := by
  have inserted := get?_foldl_insert change entries distinct (empty : OrderedMap compare β)
  have unique := (entries.foldl (fun built entry => built.insert entry.1 (change entry.2))
    (empty : OrderedMap compare β)).distinct
  have uniqueChanged : (entries.map fun entry => (entry.1, change entry.2)).Nodup :=
    List.Nodup.of_map Prod.fst (by simpa [Function.comp_def] using distinct)
  refine (List.perm_ext_iff_of_nodup unique.of_map uniqueChanged).mpr ?_
  rintro ⟨key, value⟩
  rw [mem_entries_iff, inserted, get?_empty, Option.or_none, Option.map_eq_some_iff,
    List.mem_map]
  constructor
  · rintro ⟨stored, found, rfl⟩
    exact ⟨(key, stored), (mem_iff_lookup distinct key stored).mpr found, rfl⟩
  · rintro ⟨⟨other, stored⟩, listed, same⟩
    obtain ⟨rfl, rfl⟩ := Prod.mk.inj same
    exact ⟨stored, (mem_iff_lookup distinct other stored).mp listed, rfl⟩

/-- Rebuilding a map changes the value of every entry, wherever the entry goes. -/
theorem entries_rebuild_perm (change : α → β) (map : OrderedMap compare α) :
    (map.rebuild change).entries.Perm (map.entries.map fun entry => (entry.1, change entry.2)) :=
  entries_foldl_insert_perm change map.distinct

/-- Rebuilding a map keeps its keys. -/
theorem keys_rebuild_perm (change : α → β) (map : OrderedMap compare α) :
    (map.rebuild change).keys.Perm map.keys := by
  simpa [keys, Function.comp_def] using (entries_rebuild_perm change map).map Prod.fst

/-- Rebuilding a map changes every value and adds none. -/
theorem values_rebuild_perm (change : α → β) (map : OrderedMap compare α) :
    (map.rebuild change).values.Perm (map.values.map change) := by
  have perm := (entries_rebuild_perm change map).map Prod.snd
  rw [List.map_map] at perm
  rw [values, values, List.map_map]
  exact perm

end SourceMap.OrderedMap

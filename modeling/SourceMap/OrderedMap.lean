import SourceMap.LookupTable

/-!
# Ordered maps

A map keeps its entries twice: in a list, in the order of a comparison of keys,
from which it is read out, and in a table, in which keys are looked up. Setting a
key changes both, along one of two ways: a key that the table knows keeps its
place in the list, and a new one is put in where a search by halving ends. That
list and table agree is part of what a map is, so `OrderedMap.insert` proves it on
both ways.

Keys are told apart by equality, not by the comparison. The search is defined for
every comparison; where the keys so far that do not come after the new one form an
initial part of the list, it ends behind that part. A comparison may leave two
keys incomparable; the search then goes on as if the key in the list came after
the new one.
-/

namespace SourceMap

/-- A map from keys to values, listed in the order of a comparison. -/
structure OrderedMap {κ : Type} [DecidableEq κ] (compare : κ → κ → Option Ordering)
    (α : Type) where
  entries : List (κ × α)
  /-- Where keys are looked up. -/
  table : LookupTable κ α
  /-- No key has two entries. -/
  distinct : (entries.map Prod.fst).Nodup
  /-- The table holds what the list holds. -/
  agrees : ∀ key, table.get? key = entries.lookup key

namespace OrderedMap

/-- Search an interval of places by halving for the first one at which a test
fails, as if it never held again after that. -/
def searchBetween (test : Nat → Bool) (low high : Nat) : Nat :=
  if low < high then
    let middle := (low + high) / 2
    if test middle then searchBetween test (middle + 1) high
    else searchBetween test low middle
  else low
termination_by high - low
decreasing_by all_goals omega

/-- The search ends inside its interval. -/
theorem searchBetween_bounds (test : Nat → Bool) {low high : Nat} (ordered : low ≤ high) :
    low ≤ searchBetween test low high ∧ searchBetween test low high ≤ high := by
  fun_induction searchBetween test low high with
  | case1 low high nonempty middle passed inductionHypothesis =>
    have := inductionHypothesis (by omega)
    omega
  | case2 low high nonempty middle failed inductionHypothesis =>
    have := inductionHypothesis (by omega)
    omega
  | case3 => omega

variable {κ α β σ : Type} {compare : κ → κ → Option Ordering}

/-- Whether a key in the list is known not to come after another one. -/
def precedes (compare : κ → κ → Option Ordering) (left right : κ) : Bool :=
  match compare left right with
  | some order => order.isLE
  | none => false

/-- The place of a new key among entries. -/
def insertionPoint (compare : κ → κ → Option Ordering) (entries : List (κ × α)) (key : κ) : Nat :=
  searchBetween (fun place => (entries[place]?).any fun entry => precedes compare entry.1 key)
    0 entries.length

/-- The place of a new key is in the list or at its end. -/
theorem insertionPoint_le (entries : List (κ × α)) (key : κ) :
    insertionPoint compare entries key ≤ entries.length :=
  (searchBetween_bounds _ (Nat.zero_le _)).2

variable [DecidableEq κ]

/-- Maps with the same list are the same: it settles what the table holds. -/
theorem ext {map other : OrderedMap compare α} (same : map.entries = other.entries) :
    map = other := by
  obtain ⟨entries, table, _, agrees⟩ := map
  obtain ⟨others, otherTable, _, otherAgrees⟩ := other
  obtain rfl : entries = others := same
  obtain rfl : table = otherTable :=
    LookupTable.ext fun key => (agrees key).trans (otherAgrees key).symm
  rfl

instance [DecidableEq α] : DecidableEq (OrderedMap compare α) := fun map other =>
  decidable_of_iff (map.entries = other.entries) ⟨ext, fun same => same ▸ rfl⟩

/-- The map without entries. -/
def empty : OrderedMap compare α where
  entries := []
  table := .empty
  distinct := List.nodup_nil
  agrees _ := rfl

instance : Inhabited (OrderedMap compare α) := ⟨empty⟩

/-- The value that the table has for a key. -/
def get? (map : OrderedMap compare α) (key : κ) : Option α := map.table.get? key

/-- Looking up in the table is looking up in the list. -/
theorem get?_eq_lookup (map : OrderedMap compare α) (key : κ) :
    map.get? key = map.entries.lookup key := map.agrees key

/-- Whether the table knows a key. -/
def contains (map : OrderedMap compare α) (key : κ) : Bool := (map.get? key).isSome

/-- The table knows exactly the keys of the list. -/
theorem contains_eq_true_iff (map : OrderedMap compare α) (key : κ) :
    map.contains key = true ↔ key ∈ map.entries.map Prod.fst := by
  rw [contains, get?_eq_lookup, Option.isSome_iff_ne_none, ne_eq, Entries.lookup_eq_none_iff,
    Classical.not_not]

/-- How many keys there are. -/
def size (map : OrderedMap compare α) : Nat := map.entries.length

/-- The keys in order. -/
def keys (map : OrderedMap compare α) : List κ := map.entries.map Prod.fst

/-- The values in the order of their keys. -/
def values (map : OrderedMap compare α) : List α := map.entries.map Prod.snd

/-- Change the value of a key that is there, in its place. The list and the
table hold one entry for a key, so it changes in both. -/
def update (map : OrderedMap compare α) (key : κ) (value : α) (present : map.contains key) :
    OrderedMap compare α where
  entries := Entries.set key value map.entries
  table := map.table.put key value
  distinct := by
    rw [Entries.keys_set]
    exact map.distinct
  agrees other := by
    have listed := (map.contains_eq_true_iff key).mp present
    rw [LookupTable.get?_put, map.agrees, Entries.lookup_set listed]

/-- Add a key that is not there: to the list where the search puts it, and to
the table. -/
def add (map : OrderedMap compare α) (key : κ) (value : α) (absent : ¬map.contains key) :
    OrderedMap compare α where
  entries := map.entries.insertIdx (insertionPoint compare map.entries key) (key, value)
  table := map.table.put key value
  distinct := by
    have fresh := mt (map.contains_eq_true_iff key).mpr absent
    have inside : insertionPoint compare map.entries key ≤ map.entries.length :=
      insertionPoint_le map.entries key
    have perm := (List.perm_insertIdx (key, value) map.entries inside).map Prod.fst
    exact perm.nodup_iff.mpr (List.nodup_cons.mpr ⟨fresh, map.distinct⟩)
  agrees other := by
    have fresh := mt (map.contains_eq_true_iff key).mpr absent
    rw [LookupTable.get?_put, map.agrees,
      Entries.lookup_insertIdx fresh (insertionPoint_le map.entries key)]

/-- Give a key a value. A key that has one keeps its place; a new key goes where
the search puts it. -/
def insert (map : OrderedMap compare α) (key : κ) (value : α) : OrderedMap compare α :=
  if present : map.contains key then map.update key value present else map.add key value present

/-- The list after an insertion. -/
theorem entries_insert (map : OrderedMap compare α) (key : κ) (value : α) :
    (map.insert key value).entries =
      if map.contains key then Entries.set key value map.entries
      else map.entries.insertIdx (insertionPoint compare map.entries key) (key, value) := by
  unfold insert
  split
  · rfl
  · rfl

/-- The table after an insertion. -/
theorem table_insert (map : OrderedMap compare α) (key : κ) (value : α) :
    (map.insert key value).table = map.table.put key value := by
  unfold insert
  split
  · rfl
  · rfl

/-- A look-up finds the value last set. -/
theorem get?_insert (map : OrderedMap compare α) (key : κ) (value : α) (other : κ) :
    (map.insert key value).get? other = if other = key then some value else map.get? other := by
  rw [get?, table_insert, LookupTable.get?_put, get?]

/-- The map that arises when the keys of a map are inserted one after the other,
each with its changed value; the changes hand on a state. Where all keys
compare, they keep their order; incomparable keys are placed anew. -/
def rebuildWith (change : α → σ → β × σ) (map : OrderedMap compare α) (state : σ) :
    OrderedMap compare β × σ :=
  map.entries.foldl (fun reached entry =>
    let changed := change entry.2 reached.2
    (reached.1.insert entry.1 changed.1, changed.2)) (empty, state)

end OrderedMap
end SourceMap

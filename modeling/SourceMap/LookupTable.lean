/-!
# Lookup tables

Values by key, without an order. A table is a list of entries as far as it can be
looked up in: two lists in which every key finds the same are one table, so
neither the order of its entries nor what a key was set to before is a part of it.
`LookupTable.put` gives a key a value in place, or adds the key.

`OrderedMap` keeps such a table beside its list. The lemmas on `Entries` are about
that list: how a change in place and a new entry anywhere show in a look-up. With
them the agreement of list and table comes down to one equation for each of the
two changes.
-/

namespace SourceMap

namespace Entries

variable {κ α : Type} [DecidableEq κ]

/-- Looking up a key compares it with the first entry's key. -/
theorem lookup_cons (key : κ) (entry : κ × α) (rest : List (κ × α)) :
    List.lookup key (entry :: rest) =
      if key = entry.1 then some entry.2 else List.lookup key rest := by
  obtain ⟨other, value⟩ := entry
  by_cases same : key = other
  · simp [same]
  · have different : (key == other) = false := by simpa using same
    simp [List.lookup_cons, same, different]

/-- A key finds nothing exactly if no entry has it. -/
theorem lookup_eq_none_iff (key : κ) (entries : List (κ × α)) :
    entries.lookup key = none ↔ key ∉ entries.map Prod.fst := by
  induction entries with
  | nil => simp
  | cons entry rest inductionHypothesis =>
    by_cases same : key = entry.1
    · simp [lookup_cons, same]
    · rw [lookup_cons, if_neg same, inductionHypothesis]
      simp [same]

/-- The entries with another value at a key; entries of other keys stay as they
are. -/
def set (key : κ) (value : α) (entries : List (κ × α)) : List (κ × α) :=
  entries.map fun entry => if entry.1 = key then (key, value) else entry

/-- Another value at a key leaves the keys where they are. -/
@[simp] theorem keys_set (key : κ) (value : α) (entries : List (κ × α)) :
    (set key value entries).map Prod.fst = entries.map Prod.fst := by
  rw [set, List.map_map]
  apply List.map_congr_left
  intro entry _
  by_cases same : entry.1 = key <;> simp [same]

/-- Another value at a key does not show at other keys. -/
theorem lookup_set_of_ne {key other : κ} (different : other ≠ key) (value : α)
    (entries : List (κ × α)) :
    (set key value entries).lookup other = entries.lookup other := by
  unfold set
  induction entries with
  | nil => rfl
  | cons entry rest inductionHypothesis =>
    rw [List.map_cons, lookup_cons, lookup_cons, inductionHypothesis]
    by_cases same : entry.1 = key
    · simp [same, different]
    · simp [same]

/-- Another value at a key is found there, if the key has an entry. -/
theorem lookup_set_self {key : κ} {entries : List (κ × α)}
    (present : key ∈ entries.map Prod.fst) (value : α) :
    (set key value entries).lookup key = some value := by
  unfold set
  induction entries with
  | nil => simp at present
  | cons entry rest inductionHypothesis =>
    rw [List.map_cons, lookup_cons]
    by_cases same : entry.1 = key
    · simp [same]
    · have later : key ∈ rest.map Prod.fst := by
        simpa [Ne.symm same] using present
      simp [same, Ne.symm same, inductionHypothesis later]

/-- Every key finds what it found before, and the key that was set its new
value. -/
theorem lookup_set {key : κ} {entries : List (κ × α)} (present : key ∈ entries.map Prod.fst)
    (value : α) (other : κ) :
    (set key value entries).lookup other =
      if other = key then some value else entries.lookup other := by
  by_cases asked : other = key
  · subst asked
    rw [if_pos rfl, lookup_set_self present]
  · rw [if_neg asked, lookup_set_of_ne asked]

/-- An element put in at a place of a list stands between the parts that the
place cuts it into. -/
theorem insertIdx_length_append {ε : Type} (before after : List ε) (element : ε) :
    (before ++ after).insertIdx before.length element = before ++ element :: after := by
  induction before with
  | nil => rfl
  | cons first rest inductionHypothesis => simp [inductionHypothesis]

/-- A new entry is found wherever it is put, and hides no other one. -/
theorem lookup_insertIdx {key : κ} {entries : List (κ × α)} (absent : key ∉ entries.map Prod.fst)
    {place : Nat} (inside : place ≤ entries.length) (value : α) (other : κ) :
    (entries.insertIdx place (key, value)).lookup other =
      if other = key then some value else entries.lookup other := by
  obtain ⟨before, after, rfl, rfl⟩ : ∃ before after, entries = before ++ after ∧
      place = before.length :=
    ⟨entries.take place, entries.drop place, (List.take_append_drop place entries).symm,
      (List.length_take_of_le inside).symm⟩
  have missing := (lookup_eq_none_iff key (before ++ after)).mpr absent
  rw [List.lookup_append, Option.or_eq_none_iff] at missing
  rw [insertIdx_length_append, List.lookup_append, List.lookup_append, lookup_cons]
  by_cases asked : other = key
  · subst asked
    simp [missing.1]
  · simp [asked]

end Entries

variable {κ α : Type} [DecidableEq κ]

/-- Whether every key finds the same in two lists of entries. -/
def FindSame (left right : List (κ × α)) : Prop := ∀ key, left.lookup key = right.lookup key

/-- A table of values by key. -/
def LookupTable (κ α : Type) [DecidableEq κ] : Type := Quot (FindSame : List (κ × α) → _ → Prop)

namespace LookupTable

/-- The table without keys. -/
def empty : LookupTable κ α := Quot.mk _ []

/-- The value of a key. -/
def get? (table : LookupTable κ α) (key : κ) : Option α :=
  Quot.lift (fun entries => entries.lookup key) (fun _ _ same => same key) table

/-- Entries with a value for a key: in place if the key is there, and behind
them otherwise. -/
def putEntry (key : κ) (value : α) (entries : List (κ × α)) : List (κ × α) :=
  if key ∈ entries.map Prod.fst then Entries.set key value entries else entries ++ [(key, value)]

/-- Every key finds what it was given last. -/
theorem lookup_putEntry (key : κ) (value : α) (entries : List (κ × α)) (other : κ) :
    (putEntry key value entries).lookup other =
      if other = key then some value else entries.lookup other := by
  unfold putEntry
  split
  · rename_i present
    exact Entries.lookup_set present value other
  · rename_i absent
    rw [List.lookup_append, Entries.lookup_cons]
    by_cases asked : other = key
    · subst asked
      simp [(Entries.lookup_eq_none_iff other entries).mpr absent]
    · simp [asked]

/-- Giving a key a value does not depend on how the entries of a table are
listed. -/
theorem putEntry_congr (key : κ) (value : α) {left right : List (κ × α)}
    (same : FindSame left right) :
    FindSame (putEntry key value left) (putEntry key value right) := by
  intro other
  rw [lookup_putEntry, lookup_putEntry, same other]

/-- Give a key a value. -/
def put (table : LookupTable κ α) (key : κ) (value : α) : LookupTable κ α :=
  Quot.lift (fun entries => Quot.mk _ (putEntry key value entries))
    (fun _ _ same => Quot.sound (putEntry_congr key value same)) table

/-- Nothing is found in the table without keys. -/
@[simp] theorem get?_empty (key : κ) : (empty : LookupTable κ α).get? key = none := rfl

/-- Every key finds what it was given last. -/
@[simp] theorem get?_put (table : LookupTable κ α) (key : κ) (value : α) (other : κ) :
    (table.put key value).get? other = if other = key then some value else table.get? other :=
  Quot.inductionOn table fun entries => lookup_putEntry key value entries other

/-- A table is what is found in it. -/
theorem ext {table other : LookupTable κ α} (same : ∀ key, table.get? key = other.get? key) :
    table = other := by
  induction table using Quot.inductionOn with
  | _ entries => induction other using Quot.inductionOn with
    | _ others => exact Quot.sound same

end LookupTable
end SourceMap

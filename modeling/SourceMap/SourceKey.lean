import SourceMap.Fault

/-!
# Keys of sources

An index is keyed by sources, and a source has a name. There is one exception. A
segment points into the table of sources by an index that is checked against both
ends of the table; an undefined index compares with nothing, so it passes both
checks and yet points to no entry. What is found there is no name, and the index
gets a key for it all the same.

The library is written once for two kinds of keys. Among plain names there is none
for the missing entry: looking it up ends in a fault of its own,
`Fault.missingEntry`, by which these runs say that they do not cover what follows.
Among optional names the missing entry is a key like any other, and such a run
goes on as it would with a name.
-/

namespace SourceMap

/-- A kind of keys for sources. -/
class SourceKey (σ : Type) where
  /-- The key of a source that has a name. -/
  ofName : String → σ
  /-- The name of the source, if it has one. -/
  name? : σ → Option String
  /-- The key of an entry that is missing from the table of sources. -/
  missing : Except Fault σ

/-- Names as keys. -/
instance : SourceKey String where
  ofName name := name
  name? := some
  missing := .error .missingEntry

/-- Optional names as keys. -/
instance : SourceKey (Option String) where
  ofName := some
  name? key := key
  missing := .ok none

namespace SourceKey

variable {σ : Type} [SourceKey σ]

/-- The text of a key inside a message. -/
def text (key : σ) : String := (name? key).getD "undefined"

/-- The text of a key in a list of them, where a missing one leaves a gap. -/
def listed (key : σ) : String := (name? key).getD ""

/-- A key as an entry of a written table. -/
def json (key : σ) : Json := ((name? key).map Json.string).getD .null

/-- Two keys by their names. A key without a name goes before no other and after
none. -/
def compareNames (left right : σ) : Ordering :=
  match name? left, name? right with
  | some left, some right => Units.compare left right
  | _, _ => .eq

/-- Whether a key is that of a source with a name. -/
def Named (key : σ) : Prop := (name? key).isSome = true

@[simp] theorem ofName_string (name : String) : (ofName name : String) = name := rfl

@[simp] theorem name?_string (name : String) : name? name = some name := rfl

@[simp] theorem text_string (name : String) : text name = name := rfl

@[simp] theorem listed_string (name : String) : listed name = name := rfl

@[simp] theorem json_string : (json : String → Json) = .string := rfl

@[simp] theorem compareNames_string (left right : String) :
    compareNames left right = Units.compare left right := rfl

end SourceKey

/-- A kind of keys in which a source with a name has one key, that of its name. -/
class LawfulSourceKey (σ : Type) [SourceKey σ] : Prop where
  name?_ofName : ∀ name, SourceKey.name? (SourceKey.ofName name : σ) = some name
  eq_of_name? : ∀ {left right : σ} {name : String}, SourceKey.name? left = some name →
    SourceKey.name? right = some name → left = right

instance : LawfulSourceKey String where
  name?_ofName _ := rfl
  eq_of_name? left right := (Option.some.inj left).trans (Option.some.inj right).symm

instance : LawfulSourceKey (Option String) where
  name?_ofName _ := rfl
  eq_of_name? left right := left.trans right.symm

namespace SourceKey

variable {σ : Type} [SourceKey σ] [LawfulSourceKey σ]

/-- The key of a name is that of a source with a name. -/
theorem named_ofName (name : String) : Named (ofName name : σ) := by
  rw [Named, LawfulSourceKey.name?_ofName]
  rfl

/-- The key of a name is written as the name. -/
theorem json_ofName (name : String) : json (ofName name : σ) = .string name := by
  rw [json, LawfulSourceKey.name?_ofName]
  rfl

/-- The key of a source with a name is that of the name. -/
theorem Named.map_ofName {key : σ} (named : Named key) : (name? key).map ofName = some key := by
  obtain ⟨name, isName⟩ := Option.isSome_iff_exists.mp named
  have same := LawfulSourceKey.eq_of_name? (LawfulSourceKey.name?_ofName name) isName
  rw [isName, Option.map_some, same]

end SourceKey
end SourceMap

import SourceMap.Path.Relative

/-!
# Naming sources

Writing a document turns each source of an index into an entry of its table of
sources. `OutputPlace.rename` names sources relative to where the output goes. A
naming is a function of the source and its context and always gives a name: one
that fails, or that answers differently the second time, is outside of this
description.

Paths that are known for sources stand in a record. A look-up in a record finds
more than its own entries: every record has some members under fixed names, and a
source of such a name gets the text of the member for its path unless the record
has an entry for it.
-/

namespace SourceMap

/-- What a source is named for. -/
structure NamingContext where
  /-- The generated file. -/
  file : String
  /-- The place of the source in the table. -/
  index : Nat

/-- How the sources of an index are named in a document. -/
abbrev SourceNaming (σ : Type := String) := σ → NamingContext → σ

/-- Every source keeps its name. -/
def SourceNaming.unchanged {σ : Type} : SourceNaming σ := fun source _ => source

/-- Where output goes. -/
structure OutputPlace where
  /-- The directory of the generated files. -/
  directory : Option String := none
  /-- What the names of sources start with; the directory if it is missing. -/
  base : Option String := none
  /-- Sources whose path relative to the directory is known. -/
  known : List (String × String) := []
deriving Inhabited

namespace OutputPlace

/-- What follows the first separator of an archive and its entries, the slash
included. -/
def archiveEntry? : List Char → Option (List Char)
  | '!' :: '/' :: rest => some ('/' :: rest)
  | _ :: rest => archiveEntry? rest
  | [] => none

/-- The text of a function that every record has. -/
def functionText (name : String) : String := "function " ++ name ++ "() \x7b [native code] \x7d"

/-- The functions that every record has, under their own names. -/
def memberFunctions : List String :=
  ["__defineGetter__", "__defineSetter__", "hasOwnProperty", "__lookupGetter__",
    "__lookupSetter__", "isPrototypeOf", "propertyIsEnumerable", "toString", "valueOf",
    "toLocaleString"]

/-- What is found under a name in every record, whatever its entries are, as it
prints. -/
def member? (name : String) : Option String :=
  if name = "__proto__" then some "[object Object]"
  else if name = "constructor" then some (functionText "Object")
  else if name ∈ memberFunctions then some (functionText name)
  else none

/-- The path that is found for a source: a known one, or else what every record
has under the name of the source. -/
def find? (place : OutputPlace) (source : String) : Option String :=
  (place.known.lookup source).or (member? source)

/-- The name of a source. Without a place only the base name stays. Under a
place the entry of an archive keeps its path in the archive, a source for which
a path is found takes it, an absolute one keeps its base name, and any other is
named by its relative path. -/
def rename (place : OutputPlace) (source : String) : String :=
  match place.base.or place.directory with
  | none => Path.baseName source
  | some base =>
    match archiveEntry? source.toList with
    | some entry => base ++ String.ofList entry
    | none =>
      let inside :=
        match place.find? source with
        | some path => path
        | none =>
          if Path.isAbsolute source then Path.baseName source
          else Path.relative (place.directory.getD base ++ "/") source
      base ++ "/" ++ inside

end OutputPlace
end SourceMap

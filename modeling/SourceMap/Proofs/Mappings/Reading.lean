import SourceMap.Proofs.Mappings.Tokens
import SourceMap.Proofs.Walk

/-!
# What reading yields

A mappings text that is read describes the mappings that its tokens resolve to.
Each of them stems from a source of the table and leads to a target that is placed
on a generated line of the text, under no name or under one of the table.

This is about plain names as keys, where a source that is not in the table is a
fault. The checks are taken apart in `ResolvesTo`, one field for each: what a
segment that resolves has been checked for, and what it leads to. Nothing is said
about the size of totals: the columns of a text may add up to anything, and under
values of more than 205 digits to the undefined number.
-/

namespace SourceMap
namespace Mappings

/-- A text is read exactly if its tokens resolve, and then as the index of their
mappings. So whatever is proved of adding mappings one by one is proved of
reading. -/
theorem read_eq_ok {σ : Type} [DecidableEq σ] [SourceKey σ] {text : String} {sources : List σ}
    {names : List String} {index : OriginIndex σ} :
    read text sources names = .ok index ↔
      ∃ mappings, resolveAll sources names .start (tokens text.toList) = .ok mappings ∧
        OriginIndex.ofMappings sources mappings = index := by
  rw [read_eq, Walk.map_eq_ok]

/-- What a mapping must be to come from a text under tables of sources and
names. -/
structure Readable (sources names : List String) (mapping : Mapping) : Prop where
  source : mapping.source ∈ sources
  target : ∃ line column name, mapping.target = .placed (.ofNat line) column name ∧
    ∀ given, name = some given → given ∈ names

/-- A look-up ends exactly if its index is not outside the table, and finds what
is at the index. -/
theorem lookUp_eq_ok {α : Type} {table : Table} {entries : List α} {index : Number}
    {location : Location} {found : Option α} :
    Segment.lookUp table entries index location = .ok found ↔
      index.isOutside entries.length = false ∧ entryAt? entries index = found := by
  unfold Segment.lookUp
  cases index.isOutside entries.length <;> simp

/-- An entry at a place is in the table. -/
theorem mem_of_entryAt? {α : Type} {entries : List α} {index : Number} {entry : α}
    (found : entryAt? entries index = some entry) : entry ∈ entries := by
  obtain ⟨place, _, here⟩ := Option.bind_eq_some_iff.mp found
  exact List.mem_of_getElem? here

/-- A coordinate passes only if it is not negative. -/
theorem refuseNegative_eq_ok {defect : Number → SegmentDefect} {coordinate : Number}
    {location : Location}
    (passed : Segment.refuseNegative defect coordinate location = .ok ()) :
    coordinate.isNegative = false := by
  unfold Segment.refuseNegative at passed
  split at passed
  · cases passed
  · rename_i notNegative
    simpa using notNegative

/-- What resolving a segment checks and finds: no coordinate is negative and no
index is outside its table, the source is what is at its index, or the missing
one, and the name, if there is an index for one, is what is there. -/
structure ResolvesTo {σ : Type} [SourceKey σ] (sources : List σ) (names : List String)
    (segment : Segment) (resolved : Resolved σ) : Prop where
  columnChecked : segment.generatedColumn.isNegative = false
  lineChecked : segment.originalLine.isNegative = false
  placeChecked : segment.originalColumn.isNegative = false
  sourceChecked : segment.sourceIndex.isOutside sources.length = false
  nameChecked : ∀ index, segment.nameIndex = some index → index.isOutside names.length = false
  generatedColumn : resolved.generatedColumn = segment.generatedColumn
  originalLine : resolved.originalLine = segment.originalLine
  originalColumn : resolved.originalColumn = segment.originalColumn
  source : (entryAt? sources segment.sourceIndex).elim SourceKey.missing .ok = .ok resolved.source
  name : resolved.name = segment.nameIndex.bind (entryAt? names)

/-- A segment that resolves was checked and found. Of the order of the checks
nothing is left here; it matters for the fault only. -/
theorem resolvesTo_of_resolve {σ : Type} [SourceKey σ] {segment : Segment} {sources : List σ}
    {names : List String} {location : Location} {resolved : Resolved σ}
    (success : segment.resolve sources names location = .ok resolved) :
    ResolvesTo sources names segment resolved := by
  obtain ⟨_, columnChecked, success⟩ := Walk.bind_eq_ok.mp success
  obtain ⟨_, lineChecked, success⟩ := Walk.bind_eq_ok.mp success
  obtain ⟨_, placeChecked, success⟩ := Walk.bind_eq_ok.mp success
  obtain ⟨found, sourceLookedUp, success⟩ := Walk.bind_eq_ok.mp success
  obtain ⟨name, nameLookedUp, success⟩ := Walk.bind_eq_ok.mp success
  obtain ⟨source, sourceFound, success⟩ := Walk.bind_eq_ok.mp success
  obtain rfl := Except.ok.inj success
  obtain ⟨sourceChecked, rfl⟩ := lookUp_eq_ok.mp sourceLookedUp
  have nameFound : (∀ index, segment.nameIndex = some index →
      index.isOutside names.length = false) ∧ name = segment.nameIndex.bind (entryAt? names) := by
    cases given : segment.nameIndex with
    | none =>
      rw [given] at nameLookedUp
      exact ⟨fun _ present => (nomatch present), (Except.ok.inj nameLookedUp).symm⟩
    | some index =>
      rw [given] at nameLookedUp
      obtain ⟨checked, rfl⟩ := lookUp_eq_ok.mp nameLookedUp
      exact ⟨fun _ present => Option.some.inj present ▸ checked, rfl⟩
  exact ⟨refuseNegative_eq_ok columnChecked, refuseNegative_eq_ok lineChecked,
    refuseNegative_eq_ok placeChecked, sourceChecked, nameFound.1, rfl, rfl, rfl, sourceFound,
    nameFound.2⟩

/-- Among names, the source of a segment that resolves is at its index. -/
theorem ResolvesTo.entryAt?_eq {sources names : List String} {segment : Segment}
    {resolved : Resolved} (resolvesTo : ResolvesTo sources names segment resolved) :
    entryAt? sources segment.sourceIndex = some resolved.source := by
  have found := resolvesTo.source
  cases listed : entryAt? sources segment.sourceIndex with
  | none =>
    rw [listed] at found
    cases found
  | some source =>
    rw [listed] at found
    exact congrArg some (Except.ok.inj found)

/-- A token resolves to a mapping that is readable. -/
theorem Token.readable_of_resolve {token : Token} {sources names : List String}
    {cursor next : Cursor} {mapping : Mapping}
    (success : token.resolve sources names cursor = .ok (mapping, next)) :
    Readable sources names mapping := by
  obtain ⟨offset, _, success⟩ := Walk.bind_eq_ok.mp success
  obtain ⟨⟨resolved, reached⟩, stepped, success⟩ := Walk.bind_eq_ok.mp success
  obtain ⟨⟨segment, left⟩, _, stepped⟩ := Walk.bind_eq_ok.mp stepped
  obtain ⟨found, looked, stepped⟩ := Walk.bind_eq_ok.mp stepped
  obtain ⟨rfl, rfl⟩ := Prod.mk.inj (Except.ok.inj stepped)
  obtain ⟨rfl, rfl⟩ := Prod.mk.inj (Except.ok.inj success)
  have resolvesTo := resolvesTo_of_resolve looked
  refine ⟨mem_of_entryAt? resolvesTo.entryAt?_eq, token.line, found.generatedColumn, found.name,
    rfl, ?_⟩
  intro given isGiven
  rw [resolvesTo.name] at isGiven
  obtain ⟨index, _, listed⟩ := Option.bind_eq_some_iff.mp isGiven
  exact mem_of_entryAt? listed

/-- Tokens resolve to mappings that are readable. -/
theorem readable_of_resolveAll {sources names : List String} {tokens : List Token}
    {cursor : Cursor} {mappings : List Mapping}
    (success : resolveAll sources names cursor tokens = .ok mappings) :
    ∀ mapping ∈ mappings, Readable sources names mapping := by
  induction tokens generalizing cursor mappings with
  | nil =>
    obtain rfl := Except.ok.inj success
    simp
  | cons token rest inductionHypothesis =>
    obtain ⟨⟨first, next⟩, here, success⟩ := Walk.bind_eq_ok.mp success
    obtain ⟨later, there, success⟩ := Walk.bind_eq_ok.mp success
    obtain rfl := Except.ok.inj success
    intro mapping member
    rcases List.mem_cons.mp member with rfl | further
    · exact token.readable_of_resolve here
    · exact inductionHypothesis there mapping further

variable {text : String} {sources names : List String} {index : OriginIndex}

/-- The sources of an index that was read are those of the table, each once. -/
theorem sourceNames_of_read (success : read text sources names = .ok index) :
    index.sourceNames = sources.eraseDups := by
  obtain ⟨mappings, resolved, rfl⟩ := read_eq_ok.mp success
  exact OriginIndex.sourceNames_ofMappings fun mapping member =>
    (readable_of_resolveAll resolved mapping member).source

/-- A target of an index that was read is placed on a line of the text, and its
name, if it has one, is in the table. The line is a natural number since lines
are counted and not added up; of the column no more is known than that it is a
number. -/
theorem placed_of_read (success : read text sources names = .ok index) {source : String}
    {line column : Number} {target : Target}
    (member : target ∈ index.targetsAt source line column) :
    ∃ generatedLine generatedColumn name,
      target = .placed (.ofNat generatedLine) generatedColumn name ∧
        ∀ given, name = some given → given ∈ names := by
  obtain ⟨mappings, resolved, rfl⟩ := read_eq_ok.mp success
  rw [OriginIndex.targetsAt_ofMappings] at member
  obtain ⟨mapping, listed, rfl⟩ := List.mem_map.mp member
  exact (readable_of_resolveAll resolved mapping (List.mem_of_mem_filter listed)).target

end Mappings
end SourceMap

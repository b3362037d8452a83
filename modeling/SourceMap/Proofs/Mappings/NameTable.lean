import SourceMap.Proofs.Mappings.Layout

/-!
# The table of names

The table that is written with a mappings text holds the names of the mappings of
an index, each once, in the order in which the index comes to them first. The text
has the mappings in another order, and it holds names as differences from the last
segment that had one, across segments without a name and across lines. Still,
whoever follows the text from its start stands, at the token of a mapping with a
name, at the place of just this name in the table; the token of a mapping without
a name has no field for one.

That the table is filled in the order of the index is a fact about the loop that
collects segments, `Mappings.Collecting`. What is proved here is about the written
text alone: it is followed token by token, as a reader would, and no segment of
the writer is mentioned.
-/

namespace SourceMap
namespace Mappings

variable {sources names : List String}

/-- What a token says about a name, given the cursors before and behind it. For
a name it has a fifth field, which leads to a place of the table where the name
is; for none it has four fields, and the name index stays where it was. -/
structure Token.Names (names : List String) (token : Token) (cursor next : Cursor)
    (name : Option String) : Prop where
  fields : ∃ offset, Vlq.readRun token.text = .ok offset ∧
    offset.length = if name.isSome then 5 else 4
  entry : ∀ given, name = some given →
    ∃ place : Nat, next.nameIndex = .ofNat place ∧ names[place]? = some given
  kept : name = none → next.nameIndex = cursor.nameIndex

/-- A token that leads to a whole name index names what the mapping is named to
which it resolves: with five fields the entry of the table at the index reached,
with four of them nothing, and the index is kept. -/
theorem Token.names_of_resolve {token : Token} {cursor next : Cursor} {mapping : Mapping}
    (whole : next.nameIndex.IsWhole)
    (success : token.resolve sources names cursor = .ok (mapping, next)) :
    token.Names names cursor next mapping.target.name? := by
  obtain ⟨offset, read, success⟩ := Walk.bind_eq_ok.mp success
  obtain ⟨⟨resolved, last⟩, stepped, success⟩ := Walk.bind_eq_ok.mp success
  obtain ⟨⟨segment, left⟩, advanced, stepped⟩ := Walk.bind_eq_ok.mp stepped
  obtain ⟨found, looked, stepped⟩ := Walk.bind_eq_ok.mp stepped
  obtain ⟨rfl, rfl⟩ := Prod.mk.inj (Except.ok.inj stepped)
  obtain ⟨rfl, rfl⟩ := Prod.mk.inj (Except.ok.inj success)
  have read := Walk.mapError_eq_ok.mp read
  have resolvesTo := resolvesTo_of_resolve looked
  have started : (token.startFrom cursor).nameIndex = cursor.nameIndex := by
    unfold Token.startFrom
    split <;> rfl
  rw [Target.name?_placed]
  rcases Cursor.nameIndex_of_advance advanced with ⟨four, unnamed, kept⟩ | ⟨five, named⟩
  · rw [resolvesTo.name, unnamed, Option.bind_none]
    exact ⟨⟨offset, read, four⟩, nofun, fun _ => kept.trans started⟩
  · have inside := whole.isOutside_eq_false_iff.mp (resolvesTo.nameChecked _ named)
    obtain ⟨given, listed⟩ :=
      Option.isSome_iff_exists.mp ((isSome_entryAt?_iff whole names).mpr inside)
    obtain ⟨place, isPlace, entry⟩ := Option.bind_eq_some_iff.mp listed
    rw [resolvesTo.name, named, Option.bind_some, listed]
    refine ⟨⟨offset, read, five⟩, ?_, nofun⟩
    rintro _ ⟨⟩
    exact ⟨place, Number.toNat?_eq_some_iff.mp isPlace, entry⟩

/-- A token among others that are followed resolves from where the earlier ones
leave the cursor. -/
theorem resolve_of_follow {cursor last : Cursor} {before after : List Token} {token : Token}
    {mappings : List Mapping}
    (followed : follow sources names cursor (before ++ token :: after) = .ok (mappings, last)) :
    ∃ earlier here mapping next, follow sources names cursor before = .ok (earlier, here) ∧
      token.resolve sources names here = .ok (mapping, next) ∧
      mappings[before.length]? = some mapping := by
  rw [follow_append] at followed
  obtain ⟨⟨earlier, here⟩, first, followed⟩ := Walk.bind_eq_ok.mp followed
  obtain ⟨⟨others, reached⟩, rest, same⟩ := Walk.map_eq_ok.mp followed
  obtain ⟨rfl, rfl⟩ := Prod.mk.inj same
  obtain ⟨⟨mapping, next⟩, resolved, rest⟩ := Walk.bind_eq_ok.mp rest
  obtain ⟨⟨later, _⟩, _, rest⟩ := Walk.bind_eq_ok.mp rest
  obtain ⟨rfl, _⟩ := Prod.mk.inj (Except.ok.inj rest)
  refine ⟨earlier, here, mapping, next, first, resolved, ?_⟩
  rw [← length_of_follow first]
  simp

/-- An index that passes the check is written, with the table of its names, as a
text whose tokens are read as integers, that can be followed and that stands for
its mappings in the order of their generated positions. -/
theorem exists_write_follow {index : OriginIndex} (valid : index.check = .ok ())
    (sourcesFit : index.sourceNames.length ≤ Coordinate.greatest + 1)
    (namesFit : index.names.length ≤ Coordinate.greatest + 1) :
    ∃ written last, write index = .ok written ∧ written.names = index.names ∧
      (∀ token ∈ tokens written.text.toList, token.HasIntegers) ∧
      follow written.sources written.names .start (tokens written.text.toList) =
        .ok (sortBy Mapping.position index.mappings, last) := by
  obtain ⟨placements, placed, _⟩ := Walk.map_eq_ok.mp valid
  obtain ⟨groups, spelled, wrote, _, written⟩ := exists_write_eq_ok placed sourcesFit namesFit
  have resolved := resolveAll_spelled placed sourcesFit namesFit spelled
  rw [resolveAll_eq, Walk.map_eq_ok, map_mapping_flatten_rows placed rfl,
    OriginIndex.mappingsUnder_sourceNames] at resolved
  obtain ⟨⟨mappings, last⟩, followed, rfl⟩ := resolved
  refine ⟨_, last, wrote, nameTable_eq_names placed, ?_⟩
  rw [String.toList_ofList, tokens_intercalate (not_mem_of_groupFor written)]
  exact ⟨fun _ member => hasIntegers_of_mem_tokensFrom written member, followed⟩

/-- The names of an index are those that its mappings lead to. -/
theorem names_eq (index : OriginIndex) :
    index.names = (index.mappings.filterMap (·.target.name?)).eraseDups := by
  rw [OriginIndex.names, OriginIndex.targets_eq, List.filterMap_map]
  rfl

/-- The table of names of an index that passes the check. It has no name twice,
it has just the names of the mappings, and it has them in the order of their
first use in the index, whatever the order of the text. The text has a token for
each mapping, in the order of generated positions. Each of them, read with the
cursor that the tokens before it leave, resolves to its mapping and names what
that is named: with a fifth field that leads to the name in the table, or with
four fields if there is no name.

The empty string is a name like any other. A target whose name is missing has
none, and a name that is no string does not pass the check. -/
theorem write_names {index : OriginIndex} (valid : index.check = .ok ())
    (sourcesFit : index.sourceNames.length ≤ Coordinate.greatest + 1)
    (namesFit : index.names.length ≤ Coordinate.greatest + 1) :
    ∃ written, write index = .ok written ∧ written.names.Nodup ∧
      (∀ name, name ∈ written.names ↔
        ∃ mapping ∈ index.mappings, mapping.target.name = some (.string name)) ∧
      (written.names.Pairwise fun earlier later =>
        (index.mappings.map (·.target.name?)).idxOf (some earlier) <
          (index.mappings.map (·.target.name?)).idxOf (some later)) ∧
      (tokens written.text.toList).length = index.mappings.length ∧
      ∀ before token after, tokens written.text.toList = before ++ token :: after →
        ∃ earlier cursor mapping next,
          follow written.sources written.names .start before = .ok (earlier, cursor) ∧
          token.resolve written.sources written.names cursor = .ok (mapping, next) ∧
          (sortBy Mapping.position index.mappings)[before.length]? = some mapping ∧
          token.Names written.names cursor next mapping.target.name? := by
  obtain ⟨written, last, wrote, names, integers, followed⟩ :=
    exists_write_follow valid sourcesFit namesFit
  refine ⟨written, wrote, ?_, ?_, ?_, ?_, ?_⟩
  · rw [names]
    exact nodup_eraseDups _
  · intro name
    simp only [names, names_eq, List.mem_eraseDups, List.mem_filterMap, Target.name?_eq_some_iff]
  · rw [names, names_eq]
    exact pairwise_eraseDups_filterMap _ _
  · rw [← length_of_follow followed, length_sortBy]
  · intro before token after split
    rw [split] at followed integers
    obtain ⟨earlier, cursor, mapping, next, first, resolved, here⟩ := resolve_of_follow followed
    have cursorWhole := (hasWholeIndexes_of_follow
      (fun other member => integers other (List.mem_append_left _ member))
      Cursor.hasWholeIndexes_start first).1
    have nextWhole := ((integers token (by simp)).of_resolve cursorWhole resolved).1
    exact ⟨earlier, cursor, mapping, next, first, resolved, here,
      token.names_of_resolve nextWhole.name resolved⟩

/-- The first name in the index is the last one in the text, where segments
without a name stand before and behind it. -/
def crossedIndex : OriginIndex :=
  ((OriginIndex.empty ["a.ts"]).append "a.ts" 0 2 [.placed 3 0 (some "late")]).append "a.ts" 1 0
    [.placed 0 1 none, .placed 0 4 (some "early"), .placed 3 9 none, .placed 4 2 (some "late")]

/-- The table has the names in the order of the index. The third token leads
back to its first place, and the fourth one, which has no name, leaves the name
index there. -/
theorem write_names_crossedIndex :
    ∃ written, write crossedIndex = .ok written ∧ written.names = ["late", "early"] ∧
      (tokens written.text.toList).map Token.text =
        ["CACA", "GAAAC", "AADED", "SACF", "EAAAA"].map String.toList ∧
      (∃ token cursor next, (tokens written.text.toList)[2]? = some token ∧
        token.Names written.names cursor next (some "late")) ∧
      ∃ token cursor next, (tokens written.text.toList)[3]? = some token ∧
        token.Names written.names cursor next none := by
  have valid : crossedIndex.check = .ok () := by cbv
  obtain ⟨written, wrote, _, _, _, _, each⟩ :=
    write_names valid (by decide +kernel) (by decide +kernel)
  have text : write crossedIndex =
      .ok ⟨"CACA,GAAAC;;;AADED,SACF;EAAAA", ["a.ts"], ["late", "early"]⟩ := by cbv
  obtain rfl := Except.ok.inj (wrote.symm.trans text)
  have listed : tokens "CACA,GAAAC;;;AADED,SACF;EAAAA".toList = [⟨0, 0, "CACA".toList⟩,
      ⟨0, 1, "GAAAC".toList⟩, ⟨3, 0, "AADED".toList⟩, ⟨3, 1, "SACF".toList⟩,
      ⟨4, 0, "EAAAA".toList⟩] := by cbv
  have sorted : sortBy Mapping.position crossedIndex.mappings =
      [⟨"a.ts", 1, 0, .placed 0 1 none⟩, ⟨"a.ts", 1, 0, .placed 0 4 (some "early")⟩,
        ⟨"a.ts", 0, 2, .placed 3 0 (some "late")⟩, ⟨"a.ts", 1, 0, .placed 3 9 none⟩,
        ⟨"a.ts", 1, 0, .placed 4 2 (some "late")⟩] := by cbv
  rw [listed, sorted] at each
  obtain ⟨_, cursor, _, next, _, _, ⟨⟩, third⟩ := each [_, _] _ [_, _] rfl
  obtain ⟨_, before, _, behind, _, _, ⟨⟩, fourth⟩ := each [_, _, _] _ [_] rfl
  exact ⟨_, wrote, rfl, congrArg (List.map Token.text) listed,
    ⟨_, cursor, next, congrArg (·[2]?) listed, third⟩,
    _, before, behind, congrArg (·[3]?) listed, fourth⟩

end Mappings
end SourceMap

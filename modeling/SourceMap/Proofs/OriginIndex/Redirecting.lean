import SourceMap.Proofs.OriginIndex.Placements

/-!
# Redirected indexes

A redirected index has the sources of the first one, and at each origin what the
second one holds for the targets that the first one has there, one after the
other. Whatever it holds comes from the second index.

The laws about single origins hold for all indexes. Listing all targets at once is
an equality up to order, since rebuilding may place an undefined key anew. A
target of the second index may be reached from several targets of the first one
and then comes several times; one that is not reached does not come at all.
-/

namespace SourceMap

/-- Redirecting a table of lines lists what its targets lead to, in some order. -/
theorem LineTable.targets_redirect_perm (lines second : LineTable) :
    (lines.redirect second).targets.Perm (lines.targets.flatMap second.onward) := by
  rw [LineTable.targets, LineTable.targets, List.flatMap_assoc, LineTable.redirect]
  refine ((OrderedMap.values_rebuild_perm _ _).flatMap_right _).trans ?_
  rw [List.flatMap_map]
  refine List.Perm.flatMap_left _ fun columns _ => ?_
  have joined : columns.values.flatten.flatMap second.onward =
      (columns.values.map (List.flatMap second.onward)).flatten := by
    rw [List.flatten_eq_flatMap, List.flatMap_assoc, ← List.flatMap_def]
    rfl
  rw [joined]
  exact (OrderedMap.values_rebuild_perm _ _).flatten

namespace OriginIndex

/-- Where a target leads in a file of an index; nowhere if its line or its
column is no number. -/
def onward (index : OriginIndex) (file : String) (target : Target) : List Target :=
  match target.lineNumber?, target.columnNumber? with
  | some line, some column => index.targetsAt file line column
  | _, _ => []

/-- The lines of a file lead where the index leads in it. -/
theorem onward_eq {index : OriginIndex} {file : String} {lines : LineTable}
    (found : index.lines? file = some lines) (target : Target) :
    lines.onward target = index.onward file target := by
  have same (line column : Number) :
      lines.targetsAt line column = index.targetsAt file line column := by
    simp [targetsAt, found]
  cases atLine : target.lineNumber? with
  | none => simp [LineTable.onward, onward, atLine]
  | some line =>
    cases atColumn : target.columnNumber? with
    | none => simp [LineTable.onward, onward, atLine, atColumn]
    | some column => simp only [LineTable.onward, onward, atLine, atColumn, same]

/-- The lines of the file asked for are those of a file of the index: of that
file, or else of the only one. Where no file is asked for, an index of several
files, or of none, is refused. -/
theorem linesOf_eq_ok {index : OriginIndex} {wanted : Option String} {lines : LineTable}
    (success : index.linesOf wanted = .ok lines) :
    ∃ file, index.lines? file = some lines ∧
      (wanted = some file ∨ wanted = none ∧ index.sourceNames = [file]) := by
  cases wanted with
  | some source =>
    rw [linesOf] at success
    split at success
    · rename_i found
      obtain rfl := Except.ok.inj success
      exact ⟨source, found, Or.inl rfl⟩
    · cases success
  | none =>
    rw [linesOf] at success
    split at success
    · rename_i source found entries
      obtain rfl := Except.ok.inj success
      refine ⟨source, ?_, Or.inr ⟨rfl, ?_⟩⟩
      · simp [lines?, OrderedMap.get?_eq_lookup, entries]
      · simp [sourceNames, OrderedMap.keys, entries]
    · cases success

/-- Redirecting keeps the list of sources. -/
theorem Sound.sourceNames_redirect {index : OriginIndex} (sound : index.Sound)
    (second : LineTable) :
    (index.redirect second).sourceNames = index.sourceNames := by
  simp [sourceNames, OrderedMap.keys, sound.entries_redirect, Function.comp_def]

/-- Redirecting replaces every target of an origin by those it leads to. -/
theorem targetsAt_redirect (index : OriginIndex) (second : LineTable) (source : String)
    (line column : Number) :
    (index.redirect second).targetsAt source line column =
      (index.targetsAt source line column).flatMap second.onward := by
  rw [targetsAt_eq, stored?_redirect, targetsAt_eq]
  cases index.stored? source line column <;> rfl

/-- Redirecting an index lists what its targets lead to, in some order. -/
theorem targets_redirect_perm (index : OriginIndex) (second : LineTable) :
    (index.redirect second).targets.Perm (index.targets.flatMap second.onward) := by
  rw [targets, targets, List.flatMap_assoc, redirect_eq]
  refine ((OrderedMap.values_rebuild_perm _ _).flatMap_right _).trans ?_
  rw [List.flatMap_map]
  exact List.Perm.flatMap_left _ fun lines _ => lines.targets_redirect_perm second

/-- What redirecting keeps are the targets of the redirected index. -/
theorem kept_redirectCounted (index : OriginIndex) (second : LineTable) :
    (index.redirectCounted second).kept = (index.redirect second).count := by
  rw [count, (targets_redirect_perm index second).length_eq, redirectCounted_eq]

/-- Every target of an index is at one of its origins. -/
theorem exists_of_mem_targets {index : OriginIndex} {target : Target}
    (member : target ∈ index.targets) :
    ∃ source line column, target ∈ index.targetsAt source line column := by
  rw [targets_eq] at member
  obtain ⟨mapping, listed, rfl⟩ := List.mem_map.mp member
  refine ⟨mapping.source, mapping.line, mapping.column, ?_⟩
  rw [← OriginIndex.targetsAt_mappings]
  exact List.mem_map_of_mem (List.mem_filter.mpr ⟨listed, by simp [Mapping.isAt]⟩)

/-- Every name of a redirected index is the name of a target in the second one. -/
theorem exists_of_mem_names_redirect {index onward : OriginIndex} {file : String}
    {lines : LineTable} (found : onward.lines? file = some lines) {name : String}
    (member : name ∈ (index.redirect lines).targets.filterMap Target.name?) :
    ∃ line column, ∃ target ∈ onward.targetsAt file line column, target.name? = some name := by
  obtain ⟨target, listed, named⟩ := List.mem_filterMap.mp member
  obtain ⟨source, line, column, present⟩ := exists_of_mem_targets listed
  rw [targetsAt_redirect] at present
  obtain ⟨passed, _, reached⟩ := List.mem_flatMap.mp present
  rw [onward_eq found] at reached
  unfold OriginIndex.onward at reached
  split at reached
  · exact ⟨_, _, target, reached, named⟩
  · simp at reached

end OriginIndex
end SourceMap

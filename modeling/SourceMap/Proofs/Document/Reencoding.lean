import SourceMap.Proofs.Document.Serialization
import SourceMap.Proofs.Mappings.ReadCoordinates

/-!
# Writing what was accepted

A document that was accepted and whose index passes the check is written again
under the same file and line count: with its sources, each once, and as a document
that is accepted in turn. The one thing in its way is the line count. A document
may have any natural number there, whereas one that is written has to have a
coordinate, although no line count is ever spelled in digits of mappings.

The mappings have no long values. Otherwise an index could hold the missing
source, which passes the check and is written, but as an entry that is not
accepted. That a document without long values never leads to it is part of the
result. Line counts beyond the greatest coordinate are described as exactly as the
others: the document is refused, and with which fault.
-/

namespace SourceMap

/-- A natural number passes as a coordinate up to the greatest one, and is at
fault beyond it. -/
theorem Placement.coordinate_ofNat (place : Place) (value : Nat) :
    Placement.coordinate place (some (.number (.ofNat value))) =
      if value ≤ Coordinate.greatest then .ok value
      else .error (.invalidPosition place (.notCoordinate (some (.number (.ofNat value))))) := by
  have read : ((some (Json.number (.ofNat value))).bind Json.number?).bind Number.coordinate? =
      if value ≤ Coordinate.greatest then some value else none := Number.coordinate?_ofNat value
  have shown : Fault.ofNotCoordinate place (some (.number (.ofNat value))) =
      .invalidPosition place (.notCoordinate (some (.number (.ofNat value)))) := rfl
  unfold Placement.coordinate
  rw [read, shown]
  by_cases inRange : value ≤ Coordinate.greatest <;> simp [inRange]

namespace Document

/-- A natural number passes as a line count that is to be written up to the
greatest coordinate, and is at fault beyond it. -/
theorem lineCoordinate_ofNat (value : Nat) :
    lineCoordinate (some (.number (.ofNat value))) =
      if value ≤ Coordinate.greatest then .ok (some value)
      else .error (.invalidPosition .lineCount
        (.notCoordinate (some (.number (.ofNat value))))) := by
  change (Placement.coordinate .lineCount _).map some = _
  rw [Placement.coordinate_ofNat]
  by_cases inRange : value ≤ Coordinate.greatest <;> simp [inRange, Except.map]

/-- A line count that passes its check is missing or a natural number. -/
theorem exists_ofNat_of_checkLineCount {found : Option Json} {lineCount : Option Number}
    (checked : checkLineCount found = .ok lineCount) :
    ∀ number ∈ lineCount, ∃ value : Nat, number = .ofNat value := by
  rintro number rfl
  unfold checkLineCount at checked
  split at checked
  · cases checked
  cases found with
  | none => cases checked
  | some value =>
    obtain ⟨other, isCount, same⟩ := Walk.map_eq_ok.mp checked
    obtain rfl := Option.some.inj same
    cases read : lineCount? value with
    | none =>
      rw [read] at isCount
      cases isCount
    | some count =>
      rw [read] at isCount
      obtain rfl := Except.ok.inj isCount
      obtain ⟨_, whole⟩ := Option.filter_eq_some_iff.mp read
      obtain ⟨natural, isNatural⟩ := Option.isSome_iff_exists.mp whole
      exact ⟨natural, Number.toNat?_eq_some_iff.mp isNatural⟩

/-- A document that was accepted was made of fields that pass their checks. -/
theorem exists_ofFields_of_ofInput {input : Option Json} {document : Document}
    (accepted : ofInput input = .ok document) : ∃ field, ofFields field = .ok document := by
  have ofValue {value : Json} (accepted : ofJson value = .ok document) :
      ∃ field, ofFields field = .ok document := by
    unfold ofJson at accepted
    split at accepted
    · exact ⟨_, accepted⟩
    · cases accepted
  unfold ofInput at accepted
  split at accepted
  · cases accepted
  · unfold ofText at accepted
    split at accepted
    · exact ofValue accepted
    · cases accepted
  · exact ofValue accepted

/-- The line count of a document that was accepted is a natural number, or
missing. -/
theorem exists_ofNat_of_ofInput {input : Option Json} {document : Document}
    (accepted : ofInput input = .ok document) :
    ∀ number ∈ document.lineCount, ∃ value : Nat, number = .ofNat value := by
  obtain ⟨field, success⟩ := exists_ofFields_of_ofInput accepted
  obtain ⟨_, _, success⟩ := Walk.bind_eq_ok.mp success
  obtain ⟨file, _, success⟩ := Walk.bind_eq_ok.mp success
  obtain ⟨sources, _, success⟩ := Walk.bind_eq_ok.mp success
  obtain ⟨names, _, success⟩ := Walk.bind_eq_ok.mp success
  obtain ⟨mappings, _, success⟩ := Walk.bind_eq_ok.mp success
  obtain ⟨sourceRoot, _, success⟩ := Walk.bind_eq_ok.mp success
  obtain ⟨sourcesContent, _, success⟩ := Walk.bind_eq_ok.mp success
  obtain ⟨lineCount, checked, success⟩ := Walk.bind_eq_ok.mp success
  obtain rfl := Except.ok.inj success
  exact exists_ofNat_of_checkLineCount checked

/-- Whether the line count of a document is missing or a coordinate. -/
def HasCoordinateLineCount (document : Document) : Prop :=
  ∀ number ∈ document.lineCount, ∃ value ≤ Coordinate.greatest, number = .ofNat value

/-- A line count that is missing or a coordinate passes before writing. -/
theorem HasCoordinateLineCount.exists_lineCoordinate {document : Document}
    (fits : document.HasCoordinateLineCount) :
    ∃ count : Option Nat, document.lineCount = count.map .ofNat ∧
      lineCoordinate (document.lineCount.map .number) = .ok count := by
  cases given : document.lineCount with
  | none => exact ⟨none, rfl, rfl⟩
  | some number =>
    obtain ⟨value, inRange, rfl⟩ := fits number given
    refine ⟨some value, rfl, ?_⟩
    rw [Option.map_some, lineCoordinate_ofNat, if_pos inRange]

/-- An index that passes the check and has tables of moderate length is written
under any line count that passes, with its sources in their order. -/
theorem exists_ofIndex_eq {index : OriginIndex} (valid : index.check = .ok ())
    (sourcesFit : index.sourceNames.length ≤ Coordinate.greatest + 1)
    (namesFit : index.names.length ≤ Coordinate.greatest + 1) (file : String)
    {given : Option Json} {lineCount : Option Nat}
    (passes : lineCoordinate given = .ok lineCount) :
    ∃ written, ofIndex index file given .unchanged = .ok written ∧ written.file = file ∧
      written.lineCount = lineCount.map .ofNat ∧ written.sources = index.sourceNames := by
  obtain ⟨written, wrote, sources, _⟩ := Mappings.read_write valid sourcesFit namesFit rfl
  refine ⟨_, Walk.bind_eq_ok.mpr ⟨lineCount, passes,
    Walk.bind_eq_ok.mpr ⟨written, wrote, rfl⟩⟩, rfl, rfl, ?_⟩
  rw [← sources]
  exact List.zipIdx_map_fst 0 written.sources

/-- A document that was accepted, and whose mappings have no value of more
digits than there are places of finite weight, is read without a source that is
missing from its table. If its index passes the check it is written again as a
document of the same file and line count, of its sources without repetitions,
and one that is accepted in turn, exactly if its line count is missing or a
coordinate. A greater line count, which a document may have, is refused before
anything is written.

The sources of the index are those of the table, each once, so the table of the
written document is no longer; the names are at most those of the table. Both
fit, and so does the line count, since what is accepted as a line count is a
natural number. -/
theorem ofIndex_of_ofInput {input : Option Json} {document : Document}
    (accepted : ofInput input = .ok document) (sized : document.Sized)
    (short : ¬Vlq.HasLongValue document.mappings.toList) :
    document.index ≠ .error .missingEntry ∧
    ∀ index, document.index = .ok index → index.check = .ok () →
      (document.HasCoordinateLineCount → ∃ written,
        ofIndex index document.file (document.lineCount.map .number) .unchanged = .ok written ∧
        written.file = document.file ∧ written.lineCount = document.lineCount ∧
        written.sources = document.sources.eraseDups ∧
        ofInput (some (written.toJson Field.orderOfMade)) = .ok written) ∧
      (¬document.HasCoordinateLineCount → ∃ value > Coordinate.greatest,
        document.lineCount = some (.ofNat value) ∧
        ofIndex index document.file (document.lineCount.map .number) .unchanged =
          .error (.invalidPosition .lineCount
            (.notCoordinate (some (.number (.ofNat value)))))) := by
  refine ⟨Mappings.read_ne_missingEntry short, fun index read valid => ⟨?_, ?_⟩⟩
  · intro fits
    have sources := Mappings.sourceNames_of_read read
    have sourcesFit : index.sourceNames.length ≤ Coordinate.greatest + 1 := by
      rw [sources]
      exact (length_eraseDups_le fun _ => id).trans sized.sources
    have namesFit := (Mappings.length_names_of_read read).trans sized.names
    obtain ⟨count, isCount, passes⟩ := fits.exists_lineCoordinate
    obtain ⟨written, wrote, file, lineCount, named⟩ :=
      exists_ofIndex_eq valid sourcesFit namesFit document.file passes
    refine ⟨written, wrote, file, lineCount.trans isCount.symm, named.trans sources, ?_⟩
    exact ofJson_toJson Field.complete_orderOfMade (hasSafeLineCount_of_ofIndex wrote)
  · intro exceeds
    obtain ⟨number, isCount, beyond⟩ : ∃ number, document.lineCount = some number ∧
        ¬∃ value ≤ Coordinate.greatest, number = .ofNat value := by
      by_contra none
      exact exceeds fun number isCount => by_contra fun beyond => none ⟨number, isCount, beyond⟩
    obtain ⟨value, rfl⟩ := exists_ofNat_of_ofInput accepted number isCount
    have greater : ¬value ≤ Coordinate.greatest := fun inRange => beyond ⟨value, inRange, rfl⟩
    refine ⟨value, not_le.mp greater, isCount, Walk.bind_eq_error.mpr (Or.inl ?_)⟩
    rw [isCount, Option.map_some, lineCoordinate_ofNat, if_neg greater]

/-- A document of one segment with a line count. -/
def counted (count : Nat) : Document where
  file := "app.js"
  sources := ["a.js"]
  mappings := "AAAA"
  names := []
  lineCount := some (.ofNat count)

/-- It is accepted under any safe line count. -/
theorem ofInput_counted {count : Nat} (safe : count < Number.exactBound) :
    ofInput (some ((counted count).toJson Field.orderOfRead)) = .ok (counted count) := by
  have isSafe : (counted count).HasSafeLineCount := by
    rintro _ ⟨⟩
    exact ⟨count, safe, rfl⟩
  exact ofJson_toJson Field.complete_orderOfRead isSafe

/-- Its index holds one target. -/
theorem index_counted (count : Nat) :
    (counted count).index = .ok ((OriginIndex.empty ["a.js"]).append "a.js" 0 0
      [.placed 0 0 none]) := by
  change Mappings.read "AAAA" ["a.js"] [] = _
  cbv

/-- Under the greatest coordinate as its line count it is written again, and
refused under the next number. -/
theorem ofIndex_of_ofInput_counted :
    ∃ index, (counted Coordinate.greatest).index = .ok index ∧
      (counted (Coordinate.greatest + 1)).index = .ok index ∧ index.check = .ok () ∧
      (∃ written, ofIndex index "app.js" (some (.number (.ofNat Coordinate.greatest))) .unchanged =
          .ok written ∧ written.sources = ["a.js"] ∧
        ofInput (some (written.toJson Field.orderOfMade)) = .ok written) ∧
      ∃ fault, ofIndex index "app.js" (some (.number (.ofNat (Coordinate.greatest + 1))))
        .unchanged = .error fault := by
  have valid : ((OriginIndex.empty ["a.js"]).append "a.js" 0 0 [.placed 0 0 none]).check =
      .ok () := by cbv
  have fits : (counted Coordinate.greatest).HasCoordinateLineCount := by
    rintro _ ⟨⟩
    exact ⟨Coordinate.greatest, le_rfl, rfl⟩
  have exceeds : ¬(counted (Coordinate.greatest + 1)).HasCoordinateLineCount := by
    intro fits
    obtain ⟨value, inRange, same⟩ := fits _ rfl
    have next := Number.ofNat_injective same
    omega
  have short (count : Nat) : ¬Vlq.HasLongValue (counted count).mappings.toList :=
    Vlq.not_hasLongValue_of_length_le (show "AAAA".toList.length ≤ Vlq.endlessPlace by decide)
  obtain ⟨_, againstGreatest⟩ :=
    ofIndex_of_ofInput (ofInput_counted (by decide)) ⟨by decide, by decide⟩
      (short Coordinate.greatest)
  obtain ⟨_, againstNext⟩ :=
    ofIndex_of_ofInput (ofInput_counted (by decide)) ⟨by decide, by decide⟩
      (short (Coordinate.greatest + 1))
  obtain ⟨written, wrote, _, _, sources, again⟩ :=
    (againstGreatest _ (index_counted Coordinate.greatest) valid).1 fits
  obtain ⟨_, _, _, refused⟩ :=
    (againstNext _ (index_counted (Coordinate.greatest + 1)) valid).2 exceeds
  exact ⟨_, index_counted _, index_counted _, valid, ⟨written, wrote, sources, again⟩, _, refused⟩

/-- A document whose line count is the number after the greatest coordinate is
accepted, its index is read and passes the check, and yet the index is not
written under that line count. -/
theorem ofIndex_counted_eq_error :
    ofInput (some ((counted 4503599627370496).toJson Field.orderOfRead)) =
        .ok (counted 4503599627370496) ∧
      ∃ index, (counted 4503599627370496).index = .ok index ∧ index.check = .ok () ∧
        ofIndex index (counted 4503599627370496).file
            ((counted 4503599627370496).lineCount.map .number) .unchanged =
          .error (.invalidPosition .lineCount
            (.notCoordinate (some (.number (.ofNat 4503599627370496))))) := by
  refine ⟨ofInput_counted (by decide), _, index_counted _, by cbv,
    Walk.bind_eq_error.mpr (Or.inl ?_)⟩
  exact (lineCoordinate_ofNat _).trans (if_neg (by decide))

end Document
end SourceMap

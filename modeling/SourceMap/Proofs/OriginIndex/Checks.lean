import SourceMap.Proofs.OriginIndex.Placements

/-!
# The checks of an index

All that writing insists on, as one list: for every line its key, then for every
column its key, and then for every target its line, its column and its name. The
walk over an index goes through this list. It ends well exactly if everything
passes, and otherwise with the fault of the first check that does not.

The list is written down without any fault in it: what a check is about, and
whether it passes. So the order of the walk, what it looks at and what it reports
can be read off `OriginIndex.checks` and `Check.fault`. A source is not checked,
and an index without mappings may still fail at a key. The fault of a value that
is no coordinate quotes it; where it cannot be quoted, that is the fault.
-/

namespace SourceMap

/-- Something that writing insists on: that a value is a coordinate, or that it
is a name. A value may be missing. -/
inductive Check where
  | coordinate (place : Place) (value : Option Json)
  | name (place : Place) (value : Option Json)

namespace Check

/-- Whether a check passes: a coordinate is a natural number up to the greatest
one, and a name is missing or a string. -/
def Passes : Check → Prop
  | .coordinate _ value =>
    ∃ coordinate ≤ Coordinate.greatest, value = some (.number (.ofNat coordinate))
  | .name _ value => value = none ∨ ∃ name, value = some (.string name)

/-- The fault of a check that does not pass: the place is reported, and the
value that is no coordinate, if it can be shown. -/
def fault : Check → Fault
  | .coordinate place value =>
    if (Json.plainOptional value).isSome then .invalidPosition place (.notCoordinate value)
    else .unprintable
  | .name place _ => .invalidPosition place .notString

/-- The fault that is found by making a check. -/
def fault? : Check → Option Fault
  | .coordinate place value => Walk.fault? (Placement.coordinate place value)
  | .name place value => Walk.fault? (Placement.checkName place value)

end Check

/-- The checks of a target: its line, its column and its name. -/
def Target.checks (place : TargetField → Place) (target : Target) : List Check :=
  [.coordinate (place .line) target.line, .coordinate (place .column) target.column,
    .name (place .name) target.name]

/-- The checks of the columns of a line: of each its key and then its targets. -/
def ColumnTable.checks (columns : ColumnTable) (source : String) (line : Number) : List Check :=
  columns.entries.flatMap fun (column, targets) =>
    .coordinate (.column source line column) (some (.number column)) ::
      targets.zipIdx.flatMap fun (target, number) =>
        target.checks (.target source line column number)

/-- The checks of the lines of a source: of each its key and then its columns. -/
def LineTable.checks (lines : LineTable) (source : String) : List Check :=
  lines.entries.flatMap fun (line, columns) =>
    .coordinate (.line source line) (some (.number line)) ::
      ColumnTable.checks columns source line

/-- The checks of an index, source by source. -/
def OriginIndex.checks (index : OriginIndex) : List Check :=
  index.sources.entries.flatMap fun (source, lines) => lines.checks source

/-- A coordinate that does not pass is at fault. -/
theorem Placement.coordinate_eq_error {place : Place} {value : Option Json} {fault : Fault}
    (failed : Placement.coordinate place value = .error fault) :
    fault = (Check.coordinate place value).fault := by
  unfold Placement.coordinate at failed
  split at failed
  · cases failed
  · exact (Except.error.inj failed).symm

/-- A name that does not pass is at fault. -/
theorem Placement.checkName_eq_error {place : Place} {value : Option Json} {fault : Fault}
    (failed : Placement.checkName place value = .error fault) :
    fault = .invalidPosition place .notString := by
  unfold Placement.checkName at failed
  split at failed
  · cases failed
  · cases failed
  · exact (Except.error.inj failed).symm

namespace Check

/-- A natural number passes as a coordinate up to the greatest one. -/
theorem passes_coordinate_ofNat {place : Place} {coordinate : Nat} :
    Passes (.coordinate place (some (.number (.ofNat coordinate)))) ↔
      coordinate ≤ Coordinate.greatest := by
  simp [Passes, Number.ofNat_injective.eq_iff]

/-- A check finds no fault exactly if it passes. -/
theorem fault?_eq_none_iff {check : Check} : check.fault? = none ↔ check.Passes := by
  cases check with
  | coordinate place value =>
    rw [fault?, Walk.fault?_eq_none_iff, Passes]
    constructor
    · rintro ⟨coordinate, read⟩
      obtain ⟨same, bounded⟩ := Placement.coordinate_eq_ok.mp read
      exact ⟨coordinate, bounded, same⟩
    · rintro ⟨coordinate, bounded, same⟩
      exact ⟨coordinate, Placement.coordinate_eq_ok.mpr ⟨same, bounded⟩⟩
  | name place value =>
    rw [fault?, Walk.fault?_eq_none_iff, Passes]
    constructor
    · rintro ⟨name, read⟩
      rw [Placement.checkName_eq_ok.mp read]
      cases name with
      | none => exact Or.inl rfl
      | some name => exact Or.inr ⟨name, rfl⟩
    · rintro (rfl | ⟨name, rfl⟩)
      · exact ⟨none, rfl⟩
      · exact ⟨some name, rfl⟩

/-- A check that does not pass finds its fault. -/
theorem fault?_eq_some_iff {check : Check} {fault : Fault} :
    check.fault? = some fault ↔ ¬check.Passes ∧ fault = check.fault := by
  rw [← fault?_eq_none_iff]
  cases check with
  | coordinate place value =>
    rw [fault?]
    cases read : Placement.coordinate place value with
    | ok coordinate => simp [Walk.fault?]
    | error found => simp [Walk.fault?, Placement.coordinate_eq_error read, eq_comm]
  | name place value =>
    rw [fault?, Check.fault]
    cases read : Placement.checkName place value with
    | ok name => simp [Walk.fault?]
    | error found => simp [Walk.fault?, Placement.checkName_eq_error read, eq_comm]

end Check

namespace OriginIndex

/-- The first fault is that of the first check, or else of the others. -/
theorem findSome?_checks_cons (check : Check) (rest : List Check) :
    (check :: rest).findSome? Check.fault? = check.fault?.or (rest.findSome? Check.fault?) := by
  rw [List.findSome?_cons]
  cases check.fault? <;> rfl

/-- Placing targets meets the first fault of theirs. -/
theorem fault?_targetPlacements (source : String × Nat) (line column : Number)
    (originalLine originalColumn : Nat) (targets : List Target) :
    Walk.fault? (targetPlacements source line column originalLine originalColumn targets) =
      (targets.zipIdx.flatMap fun (target, number) =>
        target.checks (.target source.1 line column number)).findSome? Check.fault? := by
  apply Walk.fault?_mapM
  rintro ⟨target, number⟩ _
  simp only [Target.checks, findSome?_checks_cons, List.findSome?_nil]
  exact Walk.fault?_bind fun _ _ => Walk.fault?_bind fun _ _ => Walk.fault?_bind fun _ _ => rfl

/-- Placing columns meets the first fault of theirs. -/
theorem fault?_columnPlacements (source : String × Nat) (line : Number) (originalLine : Nat)
    (columns : ColumnTable) :
    Walk.fault? (columnPlacements source line originalLine columns) =
      (ColumnTable.checks columns source.1 line).findSome? Check.fault? := by
  apply Walk.fault?_flatMapM
  rintro ⟨column, targets⟩ _
  rw [findSome?_checks_cons]
  exact Walk.fault?_bind fun originalColumn _ =>
    fault?_targetPlacements source line column originalLine originalColumn targets

/-- Placing lines meets the first fault of theirs. -/
theorem fault?_linePlacements (source : String × Nat) (lines : LineTable) :
    Walk.fault? (linePlacements source lines) =
      (lines.checks source.1).findSome? Check.fault? := by
  apply Walk.fault?_flatMapM
  rintro ⟨line, columns⟩ _
  rw [findSome?_checks_cons]
  exact Walk.fault?_bind fun _ _ => fault?_columnPlacements source line _ columns

/-- The walk over an index meets the fault of the first of its checks that does
not pass.

Proof: level by level. A walk meets the first fault of its steps, and a step
that checks a key and then goes on meets the fault of that check or else the
first one below; so the checks of each level are joined as the walks are. -/
theorem fault?_placements (index : OriginIndex) :
    Walk.fault? index.placements = index.checks.findSome? Check.fault? := by
  rw [checks, ← Walk.flatMap_zipIdx_fst]
  apply Walk.fault?_flatMapM
  rintro ⟨⟨source, lines⟩, number⟩ _
  exact fault?_linePlacements (source, number) lines

/-- The walk over an index ends with a fault exactly if that is the fault of its
first check that does not pass. All earlier checks pass; nothing is said about
the later ones. -/
theorem placements_eq_error_iff {index : OriginIndex} {fault : Fault} :
    index.placements = .error fault ↔
      ∃ before check after, index.checks = before ++ check :: after ∧
        (∀ earlier ∈ before, earlier.Passes) ∧ ¬check.Passes ∧ fault = check.fault := by
  rw [← Walk.fault?_eq_some_iff, fault?_placements, List.findSome?_eq_some_iff]
  simp only [Check.fault?_eq_some_iff, Check.fault?_eq_none_iff]
  constructor
  · rintro ⟨before, check, after, split, ⟨fails, isFault⟩, passed⟩
    exact ⟨before, check, after, split, passed, fails, isFault⟩
  · rintro ⟨before, check, after, split, passed, fails, isFault⟩
    exact ⟨before, check, after, split, ⟨fails, isFault⟩, passed⟩

/-- The walk over an index ends well exactly if all of its checks pass. -/
theorem exists_placements_eq_ok_iff {index : OriginIndex} :
    (∃ placements, index.placements = .ok placements) ↔ ∀ check ∈ index.checks, check.Passes := by
  rw [← Walk.fault?_eq_none_iff, fault?_placements, List.findSome?_eq_none_iff]
  simp only [Check.fault?_eq_none_iff]

/-- An index passes the check exactly if all of its checks pass. -/
theorem check_eq_ok_iff {index : OriginIndex} :
    index.check = .ok () ↔ ∀ check ∈ index.checks, check.Passes := by
  rw [← exists_placements_eq_ok_iff, OriginIndex.check, Walk.map_eq_ok]
  simp only [and_true]

/-- An index that does not pass has the fault of its first check that does not.
Checking walks over the whole index before anything is written, so a fault is
met before there is any output. -/
theorem check_eq_error_iff {index : OriginIndex} {fault : Fault} :
    index.check = .error fault ↔
      ∃ before check after, index.checks = before ++ check :: after ∧
        (∀ earlier ∈ before, earlier.Passes) ∧ ¬check.Passes ∧ fault = check.fault := by
  rw [OriginIndex.check, Walk.map_eq_error, placements_eq_error_iff]

end OriginIndex
end SourceMap

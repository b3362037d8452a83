import SourceMap.Coordinate
import SourceMap.Proofs.OrderedMap.Order

/-!
# The order of numbers

Away from the undefined number the comparison of numbers is a strict order: the
finite numbers stand between the infinities in the order of the rationals. So
tables whose keys are all defined list them in ascending order.

The undefined number has to be left out. It compares with nothing, so a table that
has it among its keys is in no order, and where it stands in the list depends on
how the table was made. The lemmas on integers and natural numbers say that the
inclusions into numbers are injective and reflect what is read back.
-/

namespace SourceMap.Number

/-- Finite numbers compare as the rationals they are. -/
theorem compare?_finite_eq_lt {left right : Rat} :
    compare? (.finite left) (.finite right) = some .lt ↔ left < right := by
  rw [compare?, Option.some.injEq, compareOfLessAndEq_eq_lt]

/-- One finite number comes after another exactly if the rational does. -/
theorem compare?_finite_eq_gt {left right : Rat} :
    compare? (.finite left) (.finite right) = some .gt ↔ right < left := by
  rw [compare?, Option.some.injEq]
  exact compareOfLessAndEq_eq_gt le_antisymm le_total not_le left right

/-- Of two different defined numbers one comes first, seen from either side. -/
theorem compare?_connected {left right : Number} (leftDefined : left ≠ .nan)
    (rightDefined : right ≠ .nan) (different : left ≠ right) :
    (compare? left right = some .lt ∧ compare? right left = some .gt) ∨
      (compare? left right = some .gt ∧ compare? right left = some .lt) := by
  cases left with
  | nan => exact absurd rfl leftDefined
  | infinite negative =>
    cases right with
    | nan => exact absurd rfl rightDefined
    | infinite other => revert different; cases negative <;> cases other <;> decide
    | finite value => cases negative <;> simp [compare?]
  | finite value =>
    cases right with
    | nan => exact absurd rfl rightDefined
    | infinite negative => cases negative <;> simp [compare?]
    | finite other =>
      have apart : value ≠ other := fun same => different (congrArg Number.finite same)
      rcases lt_or_gt_of_ne apart with less | greater
      · exact Or.inl ⟨compare?_finite_eq_lt.mpr less, compare?_finite_eq_gt.mpr less⟩
      · exact Or.inr ⟨compare?_finite_eq_gt.mpr greater, compare?_finite_eq_lt.mpr greater⟩

/-- A number before one that is before a third comes before the third. No number
has to be assumed defined, since the undefined one comes before nothing and
behind nothing. -/
theorem compare?_transitive {first second third : Number}
    (before : compare? first second = some .lt) (after : compare? second third = some .lt) :
    compare? first third = some .lt := by
  cases first with
  | nan => simp [compare?] at before
  | infinite negative =>
    cases negative with
    | false => cases second with
      | nan => simp [compare?] at before
      | infinite other => cases other <;> simp [compare?] at before
      | finite value => simp [compare?] at before
    | true => cases third with
      | nan => cases second <;> simp [compare?] at after
      | infinite other =>
        cases other with
        | false => rfl
        | true => cases second with
          | nan => simp [compare?] at after
          | infinite negative => cases negative <;> simp [compare?] at after
          | finite value => simp [compare?] at after
      | finite value => simp [compare?]
  | finite value =>
    cases second with
    | nan => simp [compare?] at before
    | infinite negative =>
      cases negative with
      | true => simp [compare?] at before
      | false => cases third with
        | nan => simp [compare?] at after
        | infinite other => cases other <;> simp [compare?] at after
        | finite other => simp [compare?] at after
    | finite middle =>
      cases third with
      | nan => simp [compare?] at after
      | infinite negative => cases negative <;> simp_all [compare?]
      | finite other =>
        have less : value < other :=
          (compare?_finite_eq_lt.mp before).trans (compare?_finite_eq_lt.mp after)
        exact compare?_finite_eq_lt.mpr less

/-- The comparison puts all numbers but the undefined one in a strict order. -/
theorem strictOrder : OrderedMap.StrictOrder compare? (· ≠ .nan) where
  connected := fun _ _ leftDefined rightDefined different =>
    compare?_connected leftDefined rightDefined different
  transitive := fun _ _ _ _ _ _ _ _ before after => compare?_transitive before after

/-- Different natural numbers are different numbers. -/
theorem ofNat_injective : Function.Injective ofNat := by
  intro left right same
  have read := congrArg toNat? same
  simpa using read

/-- Different integers are different numbers. -/
theorem ofInt_injective : Function.Injective ofInt := by
  intro left right same
  have read := congrArg toInt? same
  simpa using read

/-- A natural number is the same number as the integer it is. -/
theorem ofNat_eq_ofInt (value : Nat) : ofNat value = ofInt value := by
  simp [ofNat, ofInt]

/-- The natural numbers are the numbers read back as such. -/
theorem toNat?_eq_some_iff {number : Number} {value : Nat} :
    number.toNat? = some value ↔ number = ofNat value := by
  constructor
  · intro read
    rw [toNat?] at read
    split at read
    · rename_i found whole
      obtain rfl := Option.some.inj read
      rw [ofNat_eq_ofInt]
      exact toInt?_eq_some_iff.mp whole
    · simp at read
  · rintro rfl
    exact toNat?_ofNat value

/-- A coordinate is a natural number up to the greatest one. -/
theorem coordinate?_eq_some_iff {number : Number} {value : Nat} :
    number.coordinate? = some value ↔ number = ofNat value ∧ value ≤ Coordinate.greatest := by
  rw [coordinate?, Option.filter_eq_some_iff, toNat?_eq_some_iff, decide_eq_true_eq]

end SourceMap.Number

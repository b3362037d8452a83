import SourceMap.Json.Reader
import SourceMap.Json.Writer
import SourceMap.Proofs.Number.Digits

/-!
# Numbers in JSON text

An exact integer is written without a point or an exponent, and it is read again
if what follows it cannot go on with a number. Behind a number in JSON text stands
a comma, a bracket, a space or nothing at all, so what is written always ends
there.

Other finite numbers are written with a point or an exponent; whether they are
read back is not claimed here, and none of them is in a document that passes its
checks. Infinities and the undefined number are written as null and so are not
read back at all.
-/

namespace SourceMap.Json

/-- Whether no number goes on with a text. -/
def EndsNumber (rest : List Char) : Prop :=
  ∀ char ∈ rest.head?, char.isDigit = false ∧ char ≠ '.' ∧ char ≠ 'e' ∧ char ≠ 'E'

/-- No fraction stands where a number ends. -/
theorem readFraction_of_endsNumber {rest : List Char} (ends : EndsNumber rest) :
    readFraction rest = some ([], rest) := by
  unfold readFraction
  split
  · rename_i after
    exact absurd rfl (ends '.' rfl).2.1
  · rfl

/-- No exponent stands where a number ends. -/
theorem scanExponent_of_endsNumber {rest : List Char} (ends : EndsNumber rest) :
    Numeral.scanExponent rest = (0, rest) := by
  unfold Numeral.scanExponent
  split
  · exact absurd rfl (ends 'e' rfl).2.2.1
  · exact absurd rfl (ends 'E' rfl).2.2.2
  · rfl

/-- The digits of a natural number are read up to where they end. -/
theorem readWhole_toDigits (value : Nat) {rest : List Char} (ends : EndsNumber rest) :
    readWhole (Nat.toDigits 10 value ++ rest) = some (Nat.toDigits 10 value, rest) := by
  by_cases zero : value = 0
  · rw [zero, Nat.toDigits_zero, List.singleton_append, readWhole]
  · obtain ⟨first, more, digits, notZero⟩ :=
      Numeral.exists_toDigits_eq_cons (Nat.pos_of_ne_zero zero)
    have scanned : Numeral.scanDigits (Nat.toDigits 10 value ++ rest) =
        (Nat.toDigits 10 value, rest) :=
      Numeral.scanDigits_append (Numeral.isDigit_toDigits value) fun char found =>
        (ends char found).1
    rw [digits, List.cons_append] at scanned ⊢
    rw [readWhole, readDigits, scanned]
    exact fun after same => notZero (List.cons.inj same).1

/-- A number that starts with a digit has no sign. -/
theorem readSign_toDigits (value : Nat) (rest : List Char) :
    readSign (Nat.toDigits 10 value ++ rest) = (false, Nat.toDigits 10 value ++ rest) := by
  unfold readSign
  split
  · rename_i after same
    cases digits : Nat.toDigits 10 value with
    | nil => exact absurd digits Nat.toDigits_ne_nil
    | cons first more =>
      rw [digits, List.cons_append] at same
      have digit : first.isDigit = true :=
        Numeral.isDigit_toDigits value first (digits ▸ List.mem_cons_self)
      rw [(List.cons.inj same).1] at digit
      exact absurd digit (by decide)
  · rfl

/-- An exact integer that was written is read up to where it ends. Its digits
have no leading zero, and the numeral that they spell is not rounded. -/
theorem readNumber_writeNumber {number : Number} (exact : number.IsExactInteger)
    {rest : List Char} (ends : EndsNumber rest) :
    readNumber (writeNumber number ++ rest) = some (number, rest) := by
  obtain ⟨value, rfl, bounded⟩ := exact
  have written : writeNumber (.ofInt value) =
      (if value < 0 then ['-'] else []) ++ Nat.toDigits 10 value.natAbs :=
    Number.chars_ofInt bounded
  rw [written]
  by_cases negative : value < 0
  · have signed : readSign ('-' :: (Nat.toDigits 10 value.natAbs ++ rest)) =
        (true, Nat.toDigits 10 value.natAbs ++ rest) := rfl
    have size : ((value.natAbs : Int) : Rat) = -value := by
      rw [Int.ofNat_natAbs_of_nonpos negative.le, Int.cast_neg]
    have opposite : -Number.ofNat value.natAbs = Number.ofInt value := by
      change Number.finite (-(value.natAbs : Rat)) = .finite value
      rw [← Int.cast_natCast, size, neg_neg]
    simp [readNumber, negative, signed, readWhole_toDigits _ ends, readFraction_of_endsNumber ends,
      scanExponent_of_endsNumber ends, Numeral.value_toDigits bounded, opposite]
  · have same : Number.ofNat value.natAbs = Number.ofInt value := by
      rw [Number.ofNat_eq_ofInt, Int.natAbs_of_nonneg (by omega)]
    simp [readNumber, negative, readSign_toDigits, readWhole_toDigits _ ends,
      readFraction_of_endsNumber ends, scanExponent_of_endsNumber ends,
      Numeral.value_toDigits bounded, same]

end SourceMap.Json

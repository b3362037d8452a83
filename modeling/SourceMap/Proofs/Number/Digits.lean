import SourceMap.Number.Numeral
import SourceMap.Number.Text
import SourceMap.Proofs.Number.Order

/-!
# Integers in decimal digits

An integer within the exact bound is written with its decimal digits, and the
digits read as that integer again: the numeral that they spell is not rounded. A
natural number above zero starts with another digit than zero, so no two integers
have the same digits up to leading zeros.

Two readers are covered. A numeral of JSON text may not start with a superfluous
zero, and the field name of a record is read as a whole, with prefixes for other
bases; the digits of a natural number suit both. Beyond the exact bound numbers
have another written form, about which nothing is proved here.
-/

namespace SourceMap

/-- A decimal digit is not blank. -/
theorem Blank.isBlank_of_isDigit {char : Char} (digit : char.isDigit = true) :
    isBlank char = false := by
  have bounds : 48 ≤ char.toNat ∧ char.toNat ≤ 57 := by
    simpa [Char.isDigit, UInt32.le_iff_toNat_le] using digit
  simp only [isBlank, ranges, List.any_eq_false, decide_eq_true_eq]
  simp
  omega

/-- A text of decimal digits has no blanks at its ends. -/
theorem Blank.trim_of_digits {digits : List Char} (all : ∀ char ∈ digits, char.isDigit = true) :
    trim digits = digits := by
  have keeps {chars : List Char} (each : ∀ char ∈ chars, char.isDigit = true) :
      chars.dropWhile isBlank = chars := by
    cases chars with
    | nil => rfl
    | cons first rest =>
      have notBlank := isBlank_of_isDigit (each first List.mem_cons_self)
      rw [List.dropWhile_cons_of_neg (by simp [notBlank])]
  rw [trim, keeps all, keeps fun char member => all char (List.mem_reverse.mp member),
    List.reverse_reverse]

namespace Numeral

/-- A decimal digit has the same value in every base. -/
theorem digitValue_of_isDigit {char : Char} (digit : char.isDigit = true) :
    digitValue char = char.toNat - '0'.toNat := by
  simp [digitValue, digit]

/-- A natural number is written with decimal digits only. -/
theorem isDigit_toDigits (value : Nat) : ∀ char ∈ Nat.toDigits 10 value, char.isDigit = true :=
  fun _ member => Nat.isDigit_of_mem_toDigits (by decide) (by decide) member

/-- The decimal digits of a natural number spell it. -/
theorem natOf_toDigits (value : Nat) : natOf 10 (Nat.toDigits 10 value) = value := by
  have digits := isDigit_toDigits value
  have same : natOf 10 (Nat.toDigits 10 value) =
      Nat.ofDigitChars 10 (Nat.toDigits 10 value) 0 := by
    rw [natOf, Nat.ofDigitChars_eq_foldl]
    apply List.foldl_ext
    intro total char member
    rw [digitValue_of_isDigit (digits char member), Nat.mul_comm]
  rw [same, Nat.ofDigitChars_toDigits (by decide) (by decide)]

/-- Only zero is the digit zero. -/
theorem digitChar_ne_zero : ∀ value < 10, 0 < value → value.digitChar ≠ '0' := by
  decide

/-- A natural number above zero is not written with a leading zero. -/
theorem exists_toDigits_eq_cons {value : Nat} (positive : 0 < value) :
    ∃ first rest, Nat.toDigits 10 value = first :: rest ∧ first ≠ '0' := by
  induction value using Nat.strongRecOn with
  | ind value inductionHypothesis =>
    by_cases small : value < 10
    · exact ⟨value.digitChar, [], Nat.toDigits_of_lt_base small,
        digitChar_ne_zero value small positive⟩
    · obtain ⟨first, rest, digits, notZero⟩ :=
        inductionHypothesis (value / 10) (by omega) (by omega)
      refine ⟨first, rest ++ [(value % 10).digitChar], ?_, notZero⟩
      rw [Nat.toDigits_of_base_le (by decide) (by omega), digits, List.cons_append]

/-- Digits are scanned up to where they end. -/
theorem scanDigits_append {digits rest : List Char}
    (all : ∀ char ∈ digits, char.isDigit = true)
    (ended : ∀ char ∈ rest.head?, char.isDigit = false) :
    scanDigits (digits ++ rest) = (digits, rest) := by
  have nothing : rest.takeWhile Char.isDigit = [] ∧ rest.dropWhile Char.isDigit = rest := by
    cases rest with
    | nil => exact ⟨rfl, rfl⟩
    | cons char rest => simp [ended char rfl]
  rw [scanDigits, List.takeWhile_append_of_pos all, List.dropWhile_append_of_pos all, nothing.1,
    nothing.2, List.append_nil]

/-- The digits of a natural number within the exact bound have it as their
value. The decimal that they spell goes through the general rounding, which is
why the bound is needed: there it changes nothing. -/
theorem value_toDigits {number : Nat} (bounded : number ≤ Number.exactBound) :
    value ⟨Nat.toDigits 10 number, [], 0⟩ = Number.ofNat number := by
  have width : Decimal.width number ≤ 16 := by
    rw [Decimal.width, Nat.length_toDigits_le_iff (by decide) (by decide)]
    exact lt_of_le_of_lt bounded (by decide)
  have whole : Number.round (Decimal.toRat ⟨number, 0⟩) = Number.ofNat number := by
    have same : Decimal.toRat ⟨number, 0⟩ = ((number : Int) : Rat) := by
      simp [Decimal.toRat]
    rw [same, Number.round_intCast (by simpa using bounded), Number.ofNat_eq_ofInt]
  simp only [value, List.append_nil, natOf_toDigits, List.length_nil, Nat.cast_zero, sub_zero,
    Decimal.toNumber]
  by_cases zero : number = 0
  · rw [if_pos (Or.inl zero), zero]
    rfl
  · rw [if_neg (by omega), if_neg (by omega), whole]

end Numeral

namespace Number

/-- Whether a number is an integer within the exact bound. Every such integer is
its own rounding. -/
def IsExactInteger (number : Number) : Prop :=
  ∃ value : Int, number = ofInt value ∧ value.natAbs ≤ exactBound

/-- A natural number within the exact bound is an exact integer. -/
theorem isExactInteger_ofNat {value : Nat} (bounded : value ≤ exactBound) :
    (ofNat value).IsExactInteger :=
  ⟨value, ofNat_eq_ofInt value, by simpa using bounded⟩

/-- An integer within the exact bound is written with its sign and its digits. -/
theorem chars_ofInt {value : Int} (bounded : value.natAbs ≤ exactBound) :
    (ofInt value).chars =
      (if value < 0 then ['-'] else []) ++ Nat.toDigits 10 value.natAbs := by
  have small : (value : Rat).den = 1 ∧ (value : Rat).num.natAbs ≤ exactBound := by
    simpa using bounded
  rw [ofInt, chars, if_pos small]
  simp

/-- The digits of a natural number within the exact bound are read as that
number. -/
theorem ofUnsigned_toDigits {value : Nat} (bounded : value ≤ exactBound) :
    ofUnsigned (Nat.toDigits 10 value) = ofNat value := by
  have digits := Numeral.isDigit_toDigits value
  have ended : ∀ char ∈ ([] : List Char).head?, char.isDigit = false := fun _ found => nomatch found
  have scanned : Numeral.scanDigits (Nat.toDigits 10 value) = (Nat.toDigits 10 value, []) := by
    simpa using Numeral.scanDigits_append digits ended
  have finite : Nat.toDigits 10 value ≠ "Infinity".toList := by
    intro same
    exact absurd (digits 'I' (same ▸ by decide)) (by decide)
  have some : Numeral.scan (Nat.toDigits 10 value) = some (⟨Nat.toDigits 10 value, [], 0⟩, []) := by
    simp [Numeral.scan, scanned, Numeral.scanExponent, Nat.toDigits_ne_nil]
  rw [ofUnsigned, if_neg finite, some]
  exact Numeral.value_toDigits bounded

/-- A natural number within the exact bound is read from its written form. The
other bases do not come in the way: a written number that starts with a zero is
zero itself. -/
theorem ofKey_text_ofNat {value : Nat} (bounded : value ≤ exactBound) :
    ofKey (ofNat value).text = ofNat value := by
  have digits := Numeral.isDigit_toDigits value
  have written : (ofNat value).text.toList = Nat.toDigits 10 value := by
    have chars := chars_ofInt (show (value : Int).natAbs ≤ exactBound by simpa using bounded)
    rw [text, String.toList_ofList, ofNat_eq_ofInt, chars]
    simp
  rw [ofKey, written, Blank.trim_of_digits digits]
  split
  case h_1 nothing => exact absurd nothing Nat.toDigits_ne_nil
  case h_10 => exact ofUnsigned_toDigits bounded
  -- The text starts neither with a prefix of a base nor with a sign: all of it are digits.
  all_goals
    rename_i spelled
    rw [spelled] at digits
    simp at digits
end Number
end SourceMap

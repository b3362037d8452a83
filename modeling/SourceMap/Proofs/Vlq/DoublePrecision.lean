import SourceMap.Proofs.Number.Products
import SourceMap.Proofs.Vlq.Runs

/-!
# Digits in double precision

The digits of a value can be added up in double precision, the weight of the next
digit being carried along: each product and each sum is rounded, a weight beyond
the range is infinite, and a zero digit at such a weight makes the sum undefined.
As long as the sum is tested against the greatest exact integer at each digit,
rounding changes nothing, and the account that reading keeps in natural numbers is
the same.

The reader below makes no exception for large places: it multiplies, adds and
compares, as one would do without thinking of the range. That the two readers
agree on every text is what justifies the account with its natural numbers and its
special place 205. Weights are powers of two, which are exact up to the range;
only sums can be inexact, and one that is has failed the test.
-/

namespace SourceMap.Vlq

/-- Read digits in double precision: the sum so far, the weight of the next
digit, and how many digits were read. -/
def readRounded (sum weight : Number) (count : Nat) :
    List Char → Except VlqDefect (Number × Nat × List Char)
  | [] => .error (if count = 0 then .empty else .incomplete)
  | char :: rest =>
    match digitValue? char with
    | none => .error (.invalidCharacter char)
    | some digit =>
      let next := sum + .ofNat (digit % 32) * weight
      if Number.compare? next (.ofNat (Number.exactBound - 1)) = some .gt then .error .tooLarge
      else if digit < 32 then .ok (next, count + 1, rest)
      else readRounded next (weight * 32) (count + 1) rest

/-- The value of a sum: its half, rounded down, and the negative of that if the
sum is odd and the half is not zero. -/
def settle : Number → Value
  | .finite sum =>
    let half := (sum / 2).floor
    let magnitude := Value.signed false half.toNat
    if sum - 2 * half = 1 ∧ half ≠ 0 then magnitude.negate else magnitude
  | _ => .undefined

/-- The value that starts at an offset in code units, in double precision, and
how many digits it takes. -/
def decodeRounded (text : String) (start : Nat) : Except Fault (Value × Nat) :=
  ((readRounded 0 1 0 (Units.drop start text.toList)).map fun (sum, length, _) =>
    (settle sum, length)).mapError fun defect => .malformedVlq defect none

/-- The number that an account stands for. -/
def asNumber : Option Nat → Number
  | none => .nan
  | some spelled => .ofNat spelled

/-- The weight of the digit at a place, in double precision. -/
def weightAt (place : Nat) : Number :=
  if place < endlessPlace then .ofNat (32 ^ place) else .infinite false

/-- From place to place the weight is multiplied by the base. -/
theorem weightAt_succ (place : Nat) : weightAt place * 32 = weightAt (place + 1) := by
  unfold weightAt
  by_cases finite : place < endlessPlace
  · have power : 32 ^ (place + 1) = 2 ^ (5 * (place + 1)) := by
      rw [pow_mul]
      norm_num
    have product :
        Number.ofNat (32 ^ place) * 32 = .round ((2 ^ (5 * (place + 1)) : Nat) : Rat) := by
      rw [← power, pow_succ]
      exact Number.ofNat_mul_ofNat (32 ^ place) 32
    have inRange : 5 * (place + 1) < 1024 ↔ place + 1 < endlessPlace := by
      unfold endlessPlace
      omega
    rw [if_pos finite, product, Number.round_two_pow]
    simp only [inRange, power]
  · rw [if_neg finite, if_neg (by omega)]
    rfl

/-- A digit adds in double precision what it adds to the account: the account
refuses it exactly if the rounded sum is beyond the exact integers, and stands
for that sum otherwise.

Proof: by cases of the place. At a finite weight the exact sum is below the
bound and then not rounded, or it reaches the bound and stays there when it is
rounded, be it by the product or by the sum. At an infinite weight a digit with
data makes the sum infinite, and one without makes it undefined. -/
theorem addDigit_rounded (place data : Nat) {spelled : Option Nat}
    (exact : ∀ number, spelled = some number → number < Number.exactBound) :
    (∃ added, addDigit place data spelled = .ok added ∧
        asNumber spelled + .ofNat data * weightAt place = asNumber added ∧
        ∀ number, added = some number → number < Number.exactBound) ∨
      addDigit place data spelled = .error .tooLarge ∧
        (asNumber spelled + .ofNat data * weightAt place).IsLarge := by
  cases spelled with
  | none => exact Or.inl ⟨none, rfl, rfl, by simp⟩
  | some number =>
    have bounded := exact number rfl
    by_cases finite : place < endlessPlace
    · have product :
          Number.ofNat data * weightAt place = .round ((data * 32 ^ place : Nat) : Rat) := by
        rw [weightAt, if_pos finite, Number.ofNat_mul_ofNat]
      rw [asNumber, product]
      by_cases within : number + data * 32 ^ place < Number.exactBound
      · refine Or.inl ⟨some (number + data * 32 ^ place), ?_, ?_, ?_⟩
        · simp [addDigit, finite, Nat.pow_eq, within]
        · rw [Number.round_natCast_of_le (by omega), Number.ofNat_add_ofNat,
            Number.round_natCast_of_le within.le, asNumber]
        · rintro _ ⟨⟩
          exact within
      · refine Or.inr ⟨by simp [addDigit, finite, Nat.pow_eq, within], ?_⟩
        -- A product that rounding can change is large by itself, and so is the sum with it.
        rcases lt_or_ge (data * 32 ^ place) Number.exactBound with small | large
        · rw [Number.round_natCast_of_le small.le, Number.ofNat_add_ofNat]
          exact Number.isLarge_round (not_lt.mp within)
        · exact (Number.isLarge_round large).add_left number
    · rw [weightAt, if_neg finite]
      by_cases nothing : data = 0
      · subst nothing
        refine Or.inl ⟨none, by simp [addDigit, finite], ?_, by simp⟩
        rfl
      · refine Or.inr ⟨by simp [addDigit, finite, nothing], Or.inl ?_⟩
        have product : Number.ofNat data * .infinite false = .infinite false := by
          change Number.mul (.finite data) (.infinite false) = _
          simp [Number.mul, nothing]
        rw [product]
        rfl

/-- What the account stands for is not beyond the exact integers. -/
theorem compare?_asNumber_ne_gt {spelled : Option Nat}
    (exact : ∀ number, spelled = some number → number < Number.exactBound) :
    Number.compare? (asNumber spelled) (.ofNat (Number.exactBound - 1)) ≠ some .gt := by
  cases spelled with
  | none => simp [asNumber, Number.compare?]
  | some number =>
    have bounded := exact number rfl
    intro beyond
    have less : ((Number.exactBound - 1 : Nat) : Rat) < number :=
      Number.compare?_finite_eq_gt.mp beyond
    have lessNat : Number.exactBound - 1 < number := by exact_mod_cast less
    omega

/-- Reading in double precision accepts the digits that reading in natural
numbers accepts, and its sum is what the account stands for. -/
theorem readRounded_asNumber (place : Nat) {spelled : Option Nat} (chars : List Char)
    (exact : ∀ number, spelled = some number → number < Number.exactBound) :
    readRounded (asNumber spelled) (weightAt place) place chars =
      (readNat place spelled chars).map fun (result, length, rest) =>
        (asNumber result, length, rest) := by
  induction chars generalizing place spelled with
  | nil => rfl
  | cons char rest inductionHypothesis =>
    cases isDigit : digitValue? char with
    | none =>
      simp only [readRounded, readNat, isDigit]
      rfl
    | some digit =>
      rcases addDigit_rounded place (digit % 32) exact with
        ⟨added, addition, sum, still⟩ | ⟨refused, large⟩
      · have within := compare?_asNumber_ne_gt still
        simp only [readRounded, readNat, isDigit, addition, sum, within, if_false]
        split
        · rfl
        · rw [weightAt_succ]
          exact inductionHypothesis (place + 1) still
      · have beyond := large.compare?
        simp only [readRounded, readNat, isDigit, refused, beyond, if_true]
        rfl

/-- The value of a sum is that of the account that it stands for. -/
theorem settle_asNumber (spelled : Option Nat) : settle (asNumber spelled) = valueOf spelled := by
  cases spelled with
  | none => rfl
  | some number =>
    have half : ((number : Rat) / 2).floor = ((number / 2 : Nat) : Int) :=
      Rat.floor_natCast_div_natCast number 2
    have odd : (number : Rat) - 2 * ((number / 2 : Nat) : Int) = 1 ↔ number % 2 = 1 := by
      have parts : (number : Rat) = 2 * (number / 2 : Nat) + (number % 2 : Nat) := by
        exact_mod_cast (Nat.div_add_mod number 2).symm
      rw [Int.cast_natCast, sub_eq_iff_eq_add', parts, add_right_inj]
      exact_mod_cast Iff.rfl
    change settle (.finite number) = _
    simp only [settle, half, odd, valueOf, ne_eq, Int.natCast_eq_zero, Int.toNat_natCast]

/-- A value is read as it is in double precision. -/
theorem decodeValue_eq_decodeRounded (text : String) (start : Nat) :
    decodeValue text start = decodeRounded text start := by
  have bounded : ∀ number, some 0 = some number → number < Number.exactBound := by
    rintro _ ⟨⟩
    decide
  have digits := readRounded_asNumber 0 (Units.drop start text.toList) bounded
  change readRounded 0 1 0 _ = _ at digits
  rw [decodeValue, decodeRounded, read, digits]
  cases readNat 0 (some 0) (Units.drop start text.toList) with
  | error defect => rfl
  | ok result => simp [Except.map, Except.mapError, settle_asNumber]

end SourceMap.Vlq

import Mathlib
import SourceMap.Coordinate
import SourceMap.Proofs.Walk
import SourceMap.Text.Blank
import SourceMap.Vlq

/-!
# Variable-length quantities and back

A number that was written is read back, whatever text follows it, as long as it
stays within the bound of exact integers. So a run of integers of magnitude up to
the greatest coordinate is read back as a whole. A run consists of digits only: no
separator and no blank character occurs in it.

The induction is on the digits that are written and carries the place and the sum
along: at each place the sum and what is still to be added make the number. A
place that something is added at has a finite weight, for otherwise the number
would be beyond the bound. Signs come in only at the end, since the digits spell a
natural number that holds the sign in its lowest bit.
-/

namespace SourceMap.Vlq

/-- Whether a character is neither a separator of mappings nor blank. -/
def Plain (char : Char) : Prop := char ≠ ',' ∧ char ≠ ';' ∧ Blank.isBlank char = false

/-- Digits are plain. -/
theorem plain_digitChar {digit : Nat} (bounded : digit < 64) : Plain (digitChar digit) := by
  have every : ∀ digit : Fin 64, digitChar digit ≠ ',' ∧ digitChar digit ≠ ';' ∧
      Blank.isBlank (digitChar digit) = false := by decide
  exact every ⟨digit, bounded⟩

/-- The integer whose sign is in the lowest bit of a natural number. -/
def unfoldSign (shifted : Nat) : Int :=
  if shifted % 2 = 1 then -((shifted / 2 : Nat) : Int) else (shifted / 2 : Nat)

/-- Taking the sign out of the lowest bit undoes putting it there. -/
theorem unfoldSign_foldSign (value : Int) : unfoldSign (foldSign value) = value := by
  unfold unfoldSign foldSign
  split <;> split <;> omega

/-- The number that digits spell is the integer whose sign they have in the
lowest bit. -/
theorem number_valueOf_some (shifted : Nat) :
    (valueOf (some shifted)).number = .ofInt (unfoldSign shifted) := by
  have positive (magnitude : Nat) : Number.ofNat magnitude = .ofInt magnitude := by
    simp [Number.ofNat, Number.ofInt]
  have negative (value : Int) : -Number.ofInt value = .ofInt (-value) := by
    change Number.negate (.finite value) = .finite ((-value : Int) : Rat)
    rw [Number.negate, Rat.intCast_neg]
  unfold valueOf unfoldSign
  by_cases odd : shifted % 2 = 1
  · by_cases nothing : shifted / 2 = 0
    · simp [Value.number, odd, nothing, positive]
    · simp [Value.number, Value.negate, odd, nothing, positive, negative]
  · simp [Value.number, odd, positive]

/-- A digit takes the number up to the next five bits. -/
theorem readNat_digit {char : Char} {digit : Nat} (isDigit : digitValue? char = some digit)
    {place spelled : Nat} {rest : List Char} (finite : place < endlessPlace)
    (exact : spelled + digit % 32 * 32 ^ place < Number.exactBound) :
    readNat place (some spelled) (char :: rest) =
      if digit < 32 then .ok (some (spelled + digit % 32 * 32 ^ place), place + 1, rest)
      else readNat (place + 1) (some (spelled + digit % 32 * 32 ^ place)) rest := by
  have added : addDigit place (digit % 32) (some spelled) =
      .ok (some (spelled + digit % 32 * 32 ^ place)) := by
    simp only [addDigit, finite, if_true, Nat.pow_eq, exact]
  simp only [readNat, isDigit, added]

/-- A place at which something is added within the exact bound has a finite
weight. -/
theorem place_lt_endlessPlace {place value : Nat} (placed : place = 0 ∨ 0 < value)
    (exact : value * 32 ^ place < Number.exactBound) : place < endlessPlace := by
  rcases placed with rfl | positive
  · decide
  · by_contra endless
    have weight : 32 ^ 205 ≤ 32 ^ place := Nat.pow_le_pow_right (by decide) (not_lt.mp endless)
    have least : 32 ^ place ≤ value * 32 ^ place := Nat.le_mul_of_pos_left _ positive
    have bound : Number.exactBound < 32 ^ 205 := by decide
    omega

/-- A number in digits is read back from a place on, and what follows it is
left. At a place other than the first the number must not be zero, since a zero
digit there would stand for nothing and might be at a weight that is not finite. -/
theorem readNat_writeNat (value place spelled : Nat) (rest : List Char)
    (placed : place = 0 ∨ 0 < value) (exact : spelled + value * 32 ^ place < Number.exactBound) :
    readNat place (some spelled) (writeNat value ++ rest) =
      .ok (some (spelled + value * 32 ^ place), place + (writeNat value).length, rest) := by
  have finite : place < endlessPlace := place_lt_endlessPlace placed (by omega)
  induction value using writeNat.induct generalizing place spelled with
  | case1 value small =>
    have data : value % 32 = value := Nat.mod_eq_of_lt small
    rw [writeNat, if_pos small, List.singleton_append,
      readNat_digit (digitValue?_digitChar (by omega)) finite (by rwa [data]), if_pos small, data]
    rfl
  | case2 value large inductionHypothesis =>
    have data : (32 + value % 32) % 32 = value % 32 := by omega
    have split : value % 32 * 32 ^ place + value / 32 * 32 ^ (place + 1) = value * 32 ^ place := by
      calc value % 32 * 32 ^ place + value / 32 * 32 ^ (place + 1)
          = (32 * (value / 32) + value % 32) * 32 ^ place := by ring
        _ = value * 32 ^ place := by rw [Nat.div_add_mod]
    have further : spelled + value % 32 * 32 ^ place + value / 32 * 32 ^ (place + 1) =
        spelled + value * 32 ^ place := by omega
    have positive : 0 < value / 32 := by omega
    have finiteNext : place + 1 < endlessPlace :=
      place_lt_endlessPlace (Or.inr positive) (by omega)
    rw [writeNat, if_neg large, List.cons_append,
      readNat_digit (digitValue?_digitChar (by omega)) finite (by rw [data]; omega),
      if_neg (by omega), data,
      inductionHypothesis (place + 1) _ (Or.inr positive) (by rwa [further]) finiteNext, further,
      List.length_cons]
    congr 3
    omega

/-- An integer is read back, and what follows it is left. -/
theorem read_writeInt {value : Int} (bounded : value.natAbs ≤ Coordinate.greatest)
    (rest : List Char) :
    ∃ reading, read (writeInt value ++ rest) = .ok reading ∧ reading.value.number = .ofInt value ∧
      reading.length = (writeInt value).length ∧ reading.rest = rest := by
  have exact : foldSign value < Number.exactBound := by
    rw [Coordinate.greatest_eq] at bounded
    unfold foldSign Number.exactBound
    split <;> omega
  have digits := readNat_writeNat (foldSign value) 0 0 rest (Or.inl rfl) (by simpa using exact)
  rw [pow_zero, mul_one, zero_add, zero_add] at digits
  refine ⟨⟨valueOf (some (foldSign value)), (writeInt value).length, rest⟩, ?_, ?_, rfl, rfl⟩
  · rw [read, writeInt, digits]
    rfl
  · rw [number_valueOf_some, unfoldSign_foldSign]

/-- A number takes at least one digit. -/
theorem writeNat_ne_nil (value : Nat) : writeNat value ≠ [] := by
  rw [writeNat]
  split <;> simp

/-- A number is written in plain characters. -/
theorem plain_of_mem_writeNat {value : Nat} {char : Char} (member : char ∈ writeNat value) :
    Plain char := by
  induction value using writeNat.induct with
  | case1 value small =>
    rw [writeNat, if_pos small, List.mem_singleton] at member
    exact member ▸ plain_digitChar (by omega)
  | case2 value large inductionHypothesis =>
    rw [writeNat, if_neg large, List.mem_cons] at member
    rcases member with rfl | later
    · exact plain_digitChar (by omega)
    · exact inductionHypothesis later

/-- Integers in one run of digits. -/
def writeRun (values : List Int) : List Char := values.flatMap writeInt

/-- An integer is written exactly if its magnitude can be. -/
theorem encode_ofInt_eq_ok_iff {value : Int} {text : List Char} :
    encode (.ofInt value) = .ok text ↔
      value.natAbs ≤ Coordinate.greatest ∧ text = writeInt value := by
  by_cases bounded : value.natAbs ≤ Coordinate.greatest <;> simp [encode, bounded, eq_comm]

/-- Only integers of a magnitude that can be written are written. -/
theorem encode_eq_ok_iff {value : Number} {text : List Char} :
    encode value = .ok text ↔ ∃ integer : Int, value = .ofInt integer ∧
      integer.natAbs ≤ Coordinate.greatest ∧ text = writeInt integer := by
  constructor
  · intro success
    unfold encode at success
    split at success
    · rename_i integer isInteger
      split at success
      · exact ⟨integer, Number.toInt?_eq_some_iff.mp isInteger, ‹_›,
          (Except.ok.inj success).symm⟩
      · cases success
    · cases success
  · rintro ⟨integer, rfl, written⟩
    exact encode_ofInt_eq_ok_iff.mpr written

/-- A run of integers that can be written is written. -/
theorem encodeRun_ofInt {values : List Int}
    (bounded : ∀ value ∈ values, value.natAbs ≤ Coordinate.greatest) :
    encodeRun (values.map .ofInt) = .ok (writeRun values) := by
  have each : (values.map Number.ofInt).mapM encode = .ok (values.map writeInt) := by
    induction values with
    | nil => rfl
    | cons value rest inductionHypothesis =>
      have first : encode (.ofInt value) = .ok (writeInt value) :=
        encode_ofInt_eq_ok_iff.mpr ⟨bounded value List.mem_cons_self, rfl⟩
      have later := inductionHypothesis fun other member =>
        bounded other (List.mem_cons_of_mem value member)
      rw [List.map_cons, List.mapM_cons, first, later]
      rfl
  rw [encodeRun, each]
  rfl

/-- Read numbers up to the end of a text. -/
def readAll (chars : List Char) : Except VlqDefect (List Number) :=
  (readValues chars).map fun values => values.map Value.number

/-- At the end of a text nothing is left to read. -/
@[simp] theorem readAll_nil : readAll [] = .ok [] := by
  rw [readAll, readValues]
  rfl

/-- A run holds at least one number; all of it is read. -/
theorem readRun_eq (run : List Char) :
    readRun run = if run = [] then .error .empty else readAll run := by
  rw [readRun, readRunValues]
  split
  · rfl
  · rfl

/-- Behind a value that is read the rest of the text is. -/
theorem readValues_of_read {run : List Char} {reading : Reading}
    (success : read run = .ok reading) :
    readValues run = (readValues reading.rest).map (reading.value :: ·) := by
  cases run with
  | nil => cases success
  | cons char tail =>
    rw [readValues]
    split
    · rename_i defect failed
      cases failed.symm.trans success
    · rename_i other here
      rw [Except.ok.inj (here.symm.trans success)]

/-- Behind a number that is read the rest of the text is. -/
theorem readAll_of_read {run : List Char} {reading : Reading} (success : read run = .ok reading) :
    readAll run = (readAll reading.rest).map (reading.value.number :: ·) := by
  rw [readAll, readAll, readValues_of_read success]
  cases readValues reading.rest <;> rfl

/-- Integers in a run are read back up to the end of the text. -/
theorem readAll_writeRun {values : List Int}
    (bounded : ∀ value ∈ values, value.natAbs ≤ Coordinate.greatest) :
    readAll (writeRun values) = .ok (values.map .ofInt) := by
  induction values with
  | nil => rw [writeRun, List.flatMap_nil, readAll_nil, List.map_nil]
  | cons value rest inductionHypothesis =>
    obtain ⟨reading, first, number, _, left⟩ :=
      read_writeInt (bounded value List.mem_cons_self) (writeRun rest)
    have later := inductionHypothesis fun other member =>
      bounded other (List.mem_cons_of_mem value member)
    rw [writeRun, List.flatMap_cons, ← writeRun, readAll_of_read first, number, left, later]
    rfl

/-- A run of at least one integer is not empty. -/
theorem writeRun_ne_nil {values : List Int} (inhabited : values ≠ []) : writeRun values ≠ [] := by
  obtain ⟨value, rest, rfl⟩ := List.exists_cons_of_ne_nil inhabited
  simp [writeRun, writeInt, writeNat_ne_nil]

/-- A run of at least one integer is read back. -/
theorem readRun_writeRun {values : List Int} (inhabited : values ≠ [])
    (bounded : ∀ value ∈ values, value.natAbs ≤ Coordinate.greatest) :
    readRun (writeRun values) = .ok (values.map .ofInt) := by
  rw [readRun_eq, if_neg (writeRun_ne_nil inhabited), readAll_writeRun bounded]

/-- A run that is written is one of integers that can be written. So encoding a
run succeeds for no other numbers, not for fractions, infinities or the
undefined number. -/
theorem exists_writeRun_of_encodeRun {values : List Number} {text : List Char}
    (success : encodeRun values = .ok text) :
    ∃ integers : List Int, values = integers.map .ofInt ∧
      (∀ value ∈ integers, value.natAbs ≤ Coordinate.greatest) ∧ text = writeRun integers := by
  obtain ⟨texts, encoded, rfl⟩ := Walk.map_eq_ok.mp success
  have each := Walk.mapM_eq_ok.mp encoded
  clear success encoded
  induction each with
  | nil => exact ⟨[], rfl, by simp, rfl⟩
  | cons first _ inductionHypothesis =>
    obtain ⟨integer, rfl, bounded, rfl⟩ := encode_eq_ok_iff.mp first
    obtain ⟨integers, rfl, boundedLater, later⟩ := inductionHypothesis
    exact ⟨integer :: integers, rfl, List.forall_mem_cons.mpr ⟨bounded, boundedLater⟩,
      by simp [writeRun, later]⟩

/-- A run is written in plain characters. -/
theorem plain_of_mem_writeRun {values : List Int} {char : Char} (member : char ∈ writeRun values) :
    Plain char := by
  obtain ⟨value, _, digit⟩ := List.mem_flatMap.mp member
  exact plain_of_mem_writeNat digit

end SourceMap.Vlq

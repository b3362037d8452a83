import SourceMap.Proofs.Vlq.Canonical

/-!
# The range of decoded values

What is decoded can be encoded again, unless the value goes on beyond the places
of finite weight. There a digit with data is refused as too large, but a zero
digit is not: it makes the value undefined, and from then on any digits pass. So
the bound on the sum keeps every value within the range of encoding except those
that outlast the places of finite weight, and no value that does is an integer.

The test against the bound is meant to stop a value that is too large, and it does
wherever it compares two numbers. The undefined number compares with nothing. The
words that get through by this are described exactly, by `IsLapsed`, and so is
what becomes of them: no run with such a value can be encoded again.
-/

namespace SourceMap.Vlq

/-- Whether a number can be encoded: it is an integer of a magnitude that can be
written. -/
def IsEncodable (value : Number) : Prop :=
  ∃ integer : Int, value = .ofInt integer ∧ integer.natAbs ≤ Coordinate.greatest

/-- Whether characters are the digits of an undefined value. They take up all
places of finite weight, add up to an exact integer there, and go on with a
digit without data. -/
def IsLapsed (word : List Char) : Prop :=
  ∃ chain sum tail number, word = chain ++ tail ∧ chain.length = endlessPlace ∧
    Pending chain sum ∧ sum < Number.exactBound ∧ Chained tail number ∧ number % 32 = 0

/-- Encoding succeeds exactly for the numbers in its range. -/
theorem isEncodable_iff {value : Number} :
    IsEncodable value ↔ ∃ text, encode value = .ok text := by
  simp only [encode_eq_ok_iff, IsEncodable]
  constructor
  · rintro ⟨integer, same, bounded⟩
    exact ⟨writeInt integer, integer, same, bounded, rfl⟩
  · rintro ⟨_, integer, same, bounded, _⟩
    exact ⟨integer, same, bounded⟩

/-- The undefined number cannot be encoded. -/
theorem not_isEncodable_nan : ¬IsEncodable .nan := by
  rintro ⟨integer, impossible, _⟩
  cases impossible

/-- Numbers that can be encoded are integers of a magnitude that can be written. -/
theorem exists_eq_map_ofInt {values : List Number} (each : ∀ value ∈ values, IsEncodable value) :
    ∃ integers : List Int, values = integers.map .ofInt ∧
      ∀ integer ∈ integers, integer.natAbs ≤ Coordinate.greatest := by
  induction values with
  | nil => exact ⟨[], rfl, by simp⟩
  | cons value rest inductionHypothesis =>
    obtain ⟨⟨integer, rfl, bounded⟩, eachLater⟩ := List.forall_mem_cons.mp each
    obtain ⟨integers, rfl, boundedLater⟩ := inductionHypothesis eachLater
    exact ⟨integer :: integers, rfl, List.forall_mem_cons.mpr ⟨bounded, boundedLater⟩⟩

variable {text run : List Char}

/-- Where the sum is undefined already or the weight is not finite, a digit
leads to the undefined sum or is refused: it is refused if it has data and the
sum was a number. -/
theorem addDigit_endless {place data : Nat} {state added : Option Nat}
    (endless : state = none ∨ endlessPlace ≤ place) :
    addDigit place data state = .ok added ↔ added = none ∧ (state = none ∨ data = 0) := by
  cases state with
  | none => simp [addDigit, eq_comm]
  | some sum =>
    have beyond : ¬place < endlessPlace := by simpa using endless
    by_cases nothing : data = 0 <;> simp [addDigit, beyond, nothing, eq_comm]

/-- From there on any digits of a value are read, but for data at the first of
them where the sum was a number, and the sum is undefined at the end.

Proof: by induction on the text. Once the sum is undefined a digit leaves it so
and is never refused, so only the digits' announcements decide where the value
ends. -/
theorem readNat_endless {place length : Nat} {state result : Option Nat} {rest : List Char}
    (endless : state = none ∨ endlessPlace ≤ place) :
    readNat place state text = .ok (result, length, rest) ↔
      ∃ word number, text = word ++ rest ∧ Chained word number ∧ result = none ∧
        length = place + word.length ∧ (state = none ∨ number % 32 = 0) := by
  induction text generalizing place state length with
  | nil =>
    constructor
    · intro success
      cases success
    · rintro ⟨word, number, split, chained, _⟩
      have filled := chained.length_pos
      simp [(List.append_eq_nil_iff.mp split.symm).1] at filled
  | cons char tail inductionHypothesis =>
    constructor
    · intro success
      simp only [readNat] at success
      split at success
      · cases success
      rename_i digit isDigit
      split at success
      · cases success
      rename_i added addition
      obtain ⟨rfl, allowed⟩ := (addDigit_endless endless).mp addition
      split at success
      · rename_i ends
        obtain ⟨rfl, rfl, rfl⟩ := by simpa using success
        exact ⟨[char], digit, rfl, .last isDigit ends, rfl, rfl, allowed⟩
      · rename_i announces
        obtain ⟨word, number, rfl, chained, rfl, rfl, _⟩ :=
          (inductionHypothesis (Or.inl rfl)).mp success
        refine ⟨char :: word, _, rfl, .more isDigit (not_lt.mp announces) chained, rfl, ?_, ?_⟩
        · rw [List.length_cons]
          omega
        · rwa [Nat.add_mul_mod_self_left, Nat.mod_mod]
    · rintro ⟨word, number, split, chained, rfl, rfl, allowed⟩
      rcases chained with ⟨isDigit, ends⟩ | @⟨_, digit, word, later, isDigit, announces, further⟩
      · obtain ⟨rfl, rfl⟩ := by simpa using split
        rw [← Nat.mod_eq_of_lt ends, Nat.mod_mod] at allowed
        have addition := (addDigit_endless endless).mpr ⟨rfl, allowed⟩
        simp [readNat, isDigit, addition, ends]
      · rw [List.cons_append, List.cons.injEq] at split
        obtain ⟨rfl, rfl⟩ := split
        rw [Nat.add_mul_mod_self_left, Nat.mod_mod] at allowed
        have addition := (addDigit_endless endless).mpr ⟨rfl, allowed⟩
        have goesOn : readNat (place + 1) none (word ++ rest) =
            .ok (none, place + 1 + word.length, rest) :=
          (inductionHypothesis (Or.inl rfl)).mpr ⟨_, _, rfl, further, rfl, rfl, Or.inl rfl⟩
        have count : place + (char :: word).length = place + 1 + word.length := by
          rw [List.length_cons]
          omega
        simp only [readNat, isDigit, addition, if_neg (not_lt.mpr announces), goesOn, count]

/-- Only the undefined value has the undefined number. -/
theorem Value.number_eq_nan_iff {value : Value} : value.number = .nan ↔ value = .undefined := by
  constructor
  · intro isNan
    cases value with
    | undefined => rfl
    | signed negative magnitude => cases negative <;> cases isNan
  · rintro rfl
    rfl

/-- A value that is read can be encoded or is undefined. -/
theorem isEncodable_or_nan_of_read {reading : Reading} (success : read text = .ok reading) :
    IsEncodable reading.value.number ∨ reading.value.number = .nan := by
  rw [read, Walk.map_eq_ok] at success
  obtain ⟨⟨spelled, length, rest⟩, digits, rfl⟩ := success
  cases spelled with
  | none => exact Or.inr rfl
  | some total =>
    obtain ⟨_, _, _, _, _, _, _, _, exact⟩ := exists_chained_of_readNat digits
    exact Or.inl ⟨unfoldSign total, number_valueOf_some total, natAbs_unfoldSign_le exact⟩

/-- A value that is read is undefined exactly if it outlasts the places of
finite weight. -/
theorem value_eq_nan_iff {reading : Reading} (success : read text = .ok reading) :
    reading.value.number = .nan ↔ Outlasts text := by
  constructor
  · intro undefined
    by_contra short
    obtain ⟨_, _, number, _, _, exact, rfl⟩ := (read_eq_ok_iff_word short).mp success
    cases (number_valueOf_some number).symm.trans undefined
  · rintro ⟨chain, sum, next, rest, rfl, length, pending, exact, _⟩
    rw [read, pending.readNat_start length.le exact, Walk.map_eq_ok] at success
    obtain ⟨⟨spelled, count, left⟩, digits, rfl⟩ := success
    obtain ⟨_, _, _, _, rfl, _⟩ := (readNat_endless (Or.inr length.ge)).mp digits
    rfl

/-- An undefined value is read exactly where the digits of one are, and all of
them are taken. -/
theorem read_eq_nan_iff {length : Nat} {rest : List Char} :
    read text = .ok ⟨.undefined, length, rest⟩ ↔
      ∃ word, text = word ++ rest ∧ IsLapsed word ∧ length = word.length := by
  constructor
  · intro success
    obtain ⟨chain, sum, next, left, rfl, count, pending, exact, _⟩ :=
      (value_eq_nan_iff success).mp rfl
    rw [read, pending.readNat_start count.le exact, Walk.map_eq_ok] at success
    obtain ⟨⟨spelled, taken, behind⟩, digits, same⟩ := success
    obtain ⟨tail, number, split, chained, _, total, allowed⟩ :=
      (readNat_endless (Or.inr count.ge)).mp digits
    obtain ⟨_, rfl, rfl⟩ := Reading.mk.inj same
    refine ⟨chain ++ tail, by rw [split, List.append_assoc], ?_, by rw [total, List.length_append]⟩
    exact ⟨chain, sum, tail, number, rfl, count, pending, exact, chained, by simpa using allowed⟩
  · rintro ⟨_, rfl, ⟨chain, sum, tail, number, rfl, count, pending, exact, chained, empty⟩, rfl⟩
    have digits : readNat chain.length (some sum) (tail ++ rest) =
        .ok (none, chain.length + tail.length, rest) :=
      (readNat_endless (Or.inr count.ge)).mpr ⟨tail, number, rfl, chained, rfl, rfl, Or.inr empty⟩
    rw [List.append_assoc, read, pending.readNat_start count.le exact, digits, List.length_append]
    rfl

/-- If the first value of a run is a word, a value of the run outlasts the
places of finite weight exactly if one behind that word does. -/
theorem runOutlasts_append_iff {word rest : List Char} {number : Nat}
    (chained : Chained word number) (exact : number < Number.exactBound)
    (short : ¬Outlasts (word ++ rest)) : RunOutlasts (word ++ rest) ↔ RunOutlasts rest := by
  constructor
  · rintro ⟨words, left, split, each, outlasts⟩
    cases words with
    | nil =>
      rw [List.flatten_nil, List.nil_append] at split
      exact absurd (split ▸ outlasts) short
    | cons first words =>
      obtain ⟨_, _, again⟩ := each first List.mem_cons_self
      rw [List.flatten_cons, List.append_assoc] at split
      obtain ⟨_, rfl⟩ := chained.eq_of_append_eq again split
      exact ⟨words, left, rfl, (List.forall_mem_cons.mp each).2, outlasts⟩
  · rintro ⟨words, left, rfl, each, outlasts⟩
    exact ⟨word :: words, left, by simp, List.forall_mem_cons.mpr ⟨⟨number, exact, chained⟩, each⟩,
      outlasts⟩

/-- Each value of a run that is read can be encoded or is undefined, and one of
them is undefined exactly if a value of the run outlasts the places of finite
weight. -/
theorem of_readAll {values : List Number} (success : readAll run = .ok values) :
    (∀ value ∈ values, IsEncodable value ∨ value = .nan) ∧ (.nan ∈ values ↔ RunOutlasts run) := by
  induction length : run.length using Nat.strong_induction_on generalizing run values with
  | _ count inductionHypothesis =>
    by_cases nothing : run = []
    · subst nothing
      rw [readAll_nil] at success
      obtain rfl := Except.ok.inj success
      refine ⟨by simp, iff_of_false (by simp) ?_⟩
      rintro ⟨_, rest, split, _, chain, sum, next, later, rfl, _⟩
      simp at split
    · cases first : read run with
      | error defect => cases (readAll_of_error nothing first).symm.trans success
      | ok reading =>
        rw [readAll_of_read first, Walk.map_eq_ok] at success
        obtain ⟨others, further, rfl⟩ := success
        have shorter := read_rest_length first
        obtain ⟨each, undefined⟩ := inductionHypothesis _ (by omega) further rfl
        refine ⟨List.forall_mem_cons.mpr ⟨isEncodable_or_nan_of_read first, each⟩, ?_⟩
        rw [List.mem_cons, eq_comm, value_eq_nan_iff first, undefined]
        by_cases outlasts : Outlasts run
        · exact iff_of_true (Or.inl outlasts) ⟨[], run, rfl, by simp, outlasts⟩
        · -- The first value is a word, so a cut of the rest is one of the run, and the other way
          -- round.
          obtain ⟨word, rest, number, rfl, chained, exact, rfl⟩ :=
            (read_eq_ok_iff_word outlasts).mp first
          rw [or_iff_right outlasts]
          exact (runOutlasts_append_iff chained exact outlasts).symm

/-- Values of which one is undefined, while the others can be encoded, are
refused for that one. -/
theorem encodeRun_of_nan_mem {values : List Number}
    (each : ∀ value ∈ values, IsEncodable value ∨ value = .nan) (undefined : .nan ∈ values) :
    encodeRun values = .error (.unencodable .nan) := by
  rw [encodeRun, Walk.map_eq_error]
  induction values with
  | nil => cases undefined
  | cons value rest inductionHypothesis =>
    rw [List.forall_mem_cons] at each
    rw [List.mapM_cons, Walk.bind_eq_error]
    rcases each.1 with isEncodable | rfl
    · obtain ⟨text, written⟩ := isEncodable_iff.mp isEncodable
      have later : .nan ∈ rest := by
        rcases List.mem_cons.mp undefined with rfl | later
        · exact absurd isEncodable not_isEncodable_nan
        · exact later
      have fails := inductionHypothesis each.2 later
      exact Or.inr ⟨text, written, Walk.bind_eq_error.mpr (Or.inl fails)⟩
    · exact Or.inl rfl

/-- Decoding one value fails, or yields an integer that can be encoded, or
yields the undefined number. -/
theorem decode_cases (text : String) (start : Nat) :
    (∃ defect, decode text start = .error (.malformedVlq defect none)) ∨
    (¬Outlasts (Units.drop start text.toList) ∧ ∃ (integer : Int) (length : Nat),
      decode text start = .ok (.ofInt integer, length) ∧ IsEncodable (.ofInt integer)) ∨
    ∃ length, decode text start = .ok (.nan, length) := by
  cases success : read (Units.drop start text.toList) with
  | error defect =>
    have failed : decode text start = .error (.malformedVlq defect none) := by
      rw [decode_eq, success]
      rfl
    exact Or.inl ⟨defect, failed⟩
  | ok reading =>
    have decoded : decode text start = .ok (reading.value.number, reading.length) := by
      rw [decode_eq, success]
      rfl
    rcases isEncodable_or_nan_of_read success with ⟨integer, same, bounded⟩ | undefined
    · have short : ¬Outlasts (Units.drop start text.toList) := by
        rw [← value_eq_nan_iff success, same]
        intro impossible
        cases impossible
      rw [same] at decoded
      exact Or.inr (Or.inl ⟨short, integer, reading.length, decoded, integer, rfl, bounded⟩)
    · rw [undefined] at decoded
      exact Or.inr (Or.inr ⟨reading.length, decoded⟩)

/-- Decoding a run fails, or yields integers that can be encoded, or yields
undefined numbers as well, and that for a run with a value that outlasts the
places of finite weight. -/
theorem decodeRun_cases (run : String) :
    (∃ defect, decodeRun run = .error (.malformedVlq defect none)) ∨
    (¬RunOutlasts run.toList ∧ ∃ integers : List Int, decodeRun run = .ok (integers.map .ofInt) ∧
      ∀ integer ∈ integers, integer.natAbs ≤ Coordinate.greatest) ∨
    (RunOutlasts run.toList ∧ ∃ values : List Number, decodeRun run = .ok values ∧
      .nan ∈ values ∧ ∀ value ∈ values, IsEncodable value ∨ value = .nan) := by
  cases success : readRun run.toList with
  | error defect =>
    have failed : decodeRun run = .error (.malformedVlq defect none) := by
      rw [decodeRun_eq, success]
      rfl
    exact Or.inl ⟨defect, failed⟩
  | ok values =>
    have decoded : decodeRun run = .ok values := by
      rw [decodeRun_eq, success]
      rfl
    have whole : readAll run.toList = .ok values := by
      rw [readRun_eq] at success
      split at success
      · cases success
      · exact success
    obtain ⟨each, undefined⟩ := of_readAll whole
    by_cases outlasts : RunOutlasts run.toList
    · exact Or.inr (Or.inr ⟨outlasts, values, decoded, undefined.mpr outlasts, each⟩)
    · have every : ∀ value ∈ values, IsEncodable value := by
        intro value member
        rcases each value member with isEncodable | rfl
        · exact isEncodable
        · exact absurd (undefined.mp member) outlasts
      obtain ⟨integers, rfl, bounded⟩ := exists_eq_map_ofInt every
      exact Or.inr (Or.inl ⟨outlasts, integers, decoded, bounded⟩)

/-- The undefined number is decoded from the digits of an undefined value,
whatever follows them, and from nothing else. -/
theorem decode_eq_nan_iff {text : String} {start length : Nat} :
    decode text start = .ok (.nan, length) ↔
      ∃ word rest, Units.drop start text.toList = word ++ rest ∧ IsLapsed word ∧
        length = word.length := by
  rw [decode_eq, Walk.mapError_eq_ok, Walk.map_eq_ok]
  constructor
  · rintro ⟨⟨value, count, rest⟩, success, same⟩
    obtain ⟨isNan, rfl⟩ := Prod.mk.inj same
    obtain rfl : value = .undefined := Value.number_eq_nan_iff.mp isNan
    obtain ⟨word, split, lapsed, total⟩ := read_eq_nan_iff.mp success
    exact ⟨word, rest, split, lapsed, total⟩
  · rintro ⟨word, rest, split, lapsed, total⟩
    exact ⟨⟨.undefined, length, rest⟩, read_eq_nan_iff.mpr ⟨word, split, lapsed, total⟩, rfl⟩

/-- Digits without data that announce another one add up to zero. -/
theorem pending_zeros (count : Nat) : Pending (List.replicate count 'g') 0 := by
  induction count with
  | zero => exact .nil
  | succ count inductionHypothesis =>
    exact .cons (by decide : digitValue? 'g' = some 32) le_rfl inductionHypothesis

/-- Zero digits up to the end of the places of finite weight, and one more
behind them, spell an undefined value. -/
theorem isLapsed_zeros : IsLapsed (List.replicate endlessPlace 'g' ++ ['A']) :=
  ⟨_, 0, ['A'], 0, rfl, List.length_replicate, pending_zeros endlessPlace, by decide,
    .last (by decide) (by decide), rfl⟩

/-- As long as no value outlasts the places of finite weight, decoding fails
with a fault of its own or yields integers of a magnitude that can be encoded,
and these are encoded again. A value that outlasts these places is never an
integer: decoding fails or yields the undefined number, the latter exactly for
the digits of an undefined value. A run with the undefined number among its
values cannot be encoded again.

This is for every text and every offset; the three cases exclude one another.
The condition under which a value is undefined is exact in both directions. -/
theorem decode_in_range (text : String) (start : Nat) :
    ((∃ defect, decode text start = .error (.malformedVlq defect none)) ∨
      (¬Outlasts (Units.drop start text.toList) ∧
        ∃ (integer : Int) (length : Nat) (code : List Char),
          decode text start = .ok (.ofInt integer, length) ∧
          integer.natAbs ≤ Coordinate.greatest ∧ encode (.ofInt integer) = .ok code) ∨
      ∃ length, decode text start = .ok (.nan, length)) ∧
    (∀ length, decode text start = .ok (.nan, length) ↔
      ∃ word rest, Units.drop start text.toList = word ++ rest ∧ IsLapsed word ∧
        length = word.length) ∧
    ((∃ defect, decodeRun text = .error (.malformedVlq defect none)) ∨
      (¬RunOutlasts text.toList ∧ ∃ (integers : List Int) (code : List Char),
        decodeRun text = .ok (integers.map .ofInt) ∧
        (∀ integer ∈ integers, integer.natAbs ≤ Coordinate.greatest) ∧
        encodeRun (integers.map .ofInt) = .ok code) ∨
      (RunOutlasts text.toList ∧ ∃ values : List Number, decodeRun text = .ok values ∧
        .nan ∈ values ∧ encodeRun values = .error (.unencodable .nan))) := by
  refine ⟨?_, fun length => decode_eq_nan_iff, ?_⟩
  · rcases decode_cases text start with
      failed | ⟨short, integer, length, decoded, isEncodable⟩ | undefined
    · exact Or.inl failed
    · obtain ⟨code, written⟩ := isEncodable_iff.mp isEncodable
      exact Or.inr (Or.inl ⟨short, integer, length, code, decoded,
        (encode_ofInt_eq_ok_iff.mp written).1, written⟩)
    · exact Or.inr (Or.inr undefined)
  · rcases decodeRun_cases text with
      failed | ⟨short, integers, decoded, bounded⟩ | ⟨outlasts, values, decoded, undefined, each⟩
    · exact Or.inl failed
    · exact Or.inr (Or.inl ⟨short, integers, _, decoded, bounded, encodeRun_ofInt bounded⟩)
    · exact Or.inr (Or.inr ⟨outlasts, values, decoded, undefined,
        encodeRun_of_nan_mem each undefined⟩)

/-- Zero digits only, of which all but the last announce another one, pass as
the undefined number once there are more of them than places of finite weight,
also in a run. That number cannot be encoded. -/
theorem decode_endless_zeros :
    decode (String.ofList (List.replicate 205 'g' ++ ['A'])) 0 = .ok (.nan, 206) ∧
    decodeRun (String.ofList (List.replicate 205 'g' ++ ['A'])) = .ok [.nan] ∧
    encode .nan = .error (.unencodable .nan) := by
  have whole : (String.ofList (List.replicate 205 'g' ++ ['A'])).toList =
      List.replicate 205 'g' ++ ['A'] ++ [] := by
    rw [String.toList_ofList, List.append_nil]
  refine ⟨?_, ?_, rfl⟩
  · rw [decode_eq_nan_iff, Units.drop_zero]
    exact ⟨_, [], whole, isLapsed_zeros, rfl⟩
  · have success : read (List.replicate 205 'g' ++ ['A'] ++ []) = .ok ⟨.undefined, 206, []⟩ :=
      read_eq_nan_iff.mpr ⟨_, rfl, isLapsed_zeros, rfl⟩
    have filled : List.replicate 205 'g' ++ ['A'] ++ [] ≠ [] :=
      List.append_ne_nil_of_left_ne_nil (List.append_ne_nil_of_right_ne_nil _ (by decide)) _
    rw [decodeRun_eq, whole, readRun_eq, if_neg filled, readAll_of_read success, readAll_nil]
    rfl

end SourceMap.Vlq

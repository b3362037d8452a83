import SourceMap.Proofs.Vlq.DoublePrecision

/-!
# Decoding at an offset

Decoding starts at an offset in code units and reads one value, or it reads a
whole run. As long as no value outlasts the places of finite weight it accepts
just the words of the grammar and reports the first defect of everything else.
What encoding writes is such a word, so it is decoded wherever it stands in a
text, and a run of encoded values comes apart into these values and no others.

Decoded values keep their sign, so that zero and its negative differ. That the
second is never decoded is part of the grammar and is due to one test: a magnitude
of zero is not negated. Elsewhere the number of a value is all that counts. An
offset may fall between the halves of a pair; the half behind it is no digit.
-/

namespace SourceMap.Vlq

variable {text run : String} {start : Nat}

/-- Values with the same number are the same unless one of them is the negative of
zero. Zero with either sign is the one pair of values that numbers do not tell
apart, and the pair that the decoder has to be careful about. -/
theorem Value.eq_of_number_eq {value other : Value} (same : value.number = other.number)
    (notMinusZero : value ≠ .minusZero) (otherNotMinusZero : other ≠ .minusZero) :
    value = other := by
  have positive {magnitude : Nat} (notZero : Value.signed true magnitude ≠ .minusZero) :
      (0 : Rat) < magnitude := by
    rw [Nat.cast_pos, Nat.pos_iff_ne_zero]
    rintro rfl
    exact notZero rfl
  cases value with
  | undefined =>
    cases other with
    | undefined => rfl
    | signed negative magnitude => cases negative <;> cases same
  | signed negative magnitude =>
    cases other with
    | undefined => cases negative <;> cases same
    | signed otherNegative otherMagnitude =>
      cases negative <;> cases otherNegative
      · have equal : (magnitude : Rat) = otherMagnitude := Number.finite.inj same
        rw [Nat.cast_inj.mp equal]
      · have equal : (magnitude : Rat) = -otherMagnitude := Number.finite.inj same
        have nonnegative : (0 : Rat) ≤ magnitude := Nat.cast_nonneg magnitude
        linarith [positive otherNotMinusZero]
      · have equal : -(magnitude : Rat) = otherMagnitude := Number.finite.inj same
        have nonnegative : (0 : Rat) ≤ otherMagnitude := Nat.cast_nonneg otherMagnitude
        linarith [positive notMinusZero]
      · have equal : -(magnitude : Rat) = -otherMagnitude := Number.finite.inj same
        rw [Nat.cast_inj.mp (neg_inj.mp equal)]

/-- Lists of values with the same numbers are the same if the negative of zero
is in neither. -/
theorem Value.eq_of_map_number_eq {values others : List Value}
    (same : values.map Value.number = others.map Value.number) (notMem : .minusZero ∉ values)
    (otherNotMem : .minusZero ∉ others) : values = others := by
  induction values generalizing others with
  | nil => exact (List.map_eq_nil_iff.mp same.symm).symm
  | cons value rest inductionHypothesis =>
    cases others with
    | nil => cases same
    | cons other left =>
      obtain ⟨first, later⟩ := List.cons.inj same
      rw [List.mem_cons, not_or] at notMem otherNotMem
      rw [Value.eq_of_number_eq first (Ne.symm notMem.1) (Ne.symm otherNotMem.1),
        inductionHypothesis later notMem.2 otherNotMem.2]

/-- A value that is read is not the negative of zero. -/
theorem ne_minusZero_of_read {chars : List Char} {reading : Reading}
    (success : read chars = .ok reading) : reading.value ≠ .minusZero := by
  obtain ⟨⟨spelled, _, _⟩, _, rfl⟩ := Walk.map_eq_ok.mp success
  exact valueOf_ne_minusZero spelled

/-- Among the values that are read is no negative of zero. -/
theorem minusZero_notMem_of_readValues {chars : List Char} {values : List Value}
    (success : readValues chars = .ok values) : .minusZero ∉ values := by
  fun_induction readValues chars generalizing values with
  | case1 =>
    obtain rfl := Except.ok.inj success
    simp
  | case2 => cases success
  | case3 char tail reading first inductionHypothesis =>
    obtain ⟨others, later, rfl⟩ := Walk.map_eq_ok.mp success
    rw [List.mem_cons, not_or]
    exact ⟨Ne.symm (ne_minusZero_of_read first), inductionHypothesis later⟩

/-- A run is read as values exactly if it is read as their numbers, and no value
is the negative of zero. So what is proved of numbers is carried over to values
at no cost but this one condition. -/
theorem readRunValues_eq_ok_iff {chars : List Char} {values : List Value} :
    readRunValues chars = .ok values ↔
      readRun chars = .ok (values.map Value.number) ∧ .minusZero ∉ values := by
  have notMem {values : List Value} (success : readRunValues chars = .ok values) :
      .minusZero ∉ values := by
    rw [readRunValues] at success
    split at success
    · cases success
    · exact minusZero_notMem_of_readValues success
  constructor
  · intro success
    exact ⟨Walk.map_eq_ok.mpr ⟨values, success, rfl⟩, notMem success⟩
  · rintro ⟨success, given⟩
    obtain ⟨others, read, same⟩ := Walk.map_eq_ok.mp success
    rw [read, Value.eq_of_map_number_eq same (notMem read) given]

/-- One value is decoded exactly where a word of the grammar starts. -/
theorem decodeValue_eq_ok_iff (short : ¬Outlasts (Units.drop start text.toList)) {value : Value}
    {length : Nat} :
    decodeValue text start = .ok (value, length) ↔ ∃ word rest number,
      Units.drop start text.toList = word ++ rest ∧ Chained word number ∧
      number < Number.exactBound ∧ length = word.length ∧ value.number = signed number ∧
      value ≠ .minusZero := by
  rw [decodeValue, Walk.mapError_eq_ok, Walk.map_eq_ok]
  constructor
  · rintro ⟨reading, success, same⟩
    obtain ⟨rfl, rfl⟩ := Prod.mk.inj same
    obtain ⟨word, rest, number, split, chained, exact, rfl⟩ :=
      (read_eq_ok_iff_word short).mp success
    exact ⟨word, rest, number, split, chained, exact, rfl, number_valueOf number,
      valueOf_ne_minusZero (some number)⟩
  · rintro ⟨word, rest, number, split, chained, exact, rfl, isSigned, notMinusZero⟩
    have isValue : valueOf (some number) = value :=
      Value.eq_of_number_eq ((number_valueOf number).trans isSigned.symm)
        (valueOf_ne_minusZero _) notMinusZero
    exact ⟨⟨value, word.length, rest⟩,
      (read_eq_ok_iff_word short).mpr ⟨word, rest, number, split, chained, exact, by rw [isValue]⟩,
      rfl⟩

/-- Decoding fails exactly where a first defect is, and reports it. -/
theorem decodeValue_eq_error_iff (short : ¬Outlasts (Units.drop start text.toList))
    {fault : Fault} :
    decodeValue text start = .error fault ↔ ∃ defect,
      FirstDefect (Units.drop start text.toList) defect ∧ fault = .malformedVlq defect none := by
  rw [decodeValue, Walk.mapError_eq_error]
  simp only [Walk.map_eq_error, read_eq_error_iff short]
  exact exists_congr fun defect => and_congr_right' eq_comm

/-- A run is decoded exactly if it is made of words, at least one, and as the
values that they mean, with no negative of zero among them. -/
theorem decodeRunValues_eq_ok_iff (short : ¬RunOutlasts run.toList) {values : List Value} :
    decodeRunValues run = .ok values ↔ ∃ words : List (List Char), words ≠ [] ∧
      words.flatten = run.toList ∧ List.Forall₂ Means words (values.map Value.number) ∧
      .minusZero ∉ values := by
  rw [decodeRunValues, Walk.mapError_eq_ok, readRunValues_eq_ok_iff, readRun_eq_ok_iff_words short]
  simp only [← exists_and_right, and_assoc]

/-- Decoding a run fails exactly if, behind words at its start, a rest is left
that has a first defect, and reports that defect. -/
theorem decodeRunValues_eq_error_iff (short : ¬RunOutlasts run.toList) {fault : Fault} :
    decodeRunValues run = .error fault ↔
      ∃ (words : List (List Char)) (rest : List Char) (defect : VlqDefect),
        run.toList = words.flatten ++ rest ∧ (∀ word ∈ words, IsWord word) ∧
        (words ≠ [] → rest ≠ []) ∧ FirstDefect rest defect ∧ fault = .malformedVlq defect none := by
  have fails {defect : VlqDefect} :
      readRunValues run.toList = .error defect ↔ readRun run.toList = .error defect :=
    Walk.map_eq_error.symm
  rw [decodeRunValues, Walk.mapError_eq_error]
  constructor
  · rintro ⟨defect, failed, rfl⟩
    obtain ⟨words, rest, split, each, behind, first⟩ :=
      (readRun_eq_error_iff short).mp (fails.mp failed)
    exact ⟨words, rest, defect, split, each, behind, first, rfl⟩
  · rintro ⟨words, rest, defect, split, each, behind, first, rfl⟩
    exact ⟨defect,
      fails.mpr ((readRun_eq_error_iff short).mpr ⟨words, rest, split, each, behind, first⟩), rfl⟩

/-- Decoding adds up its digits in double precision, and it reads exactly the
grammar of values as long as none outlasts the places of finite weight. One
value is decoded where a word starts, with the length of the word and the value
that its data mean, and otherwise the first defect from left to right is
reported; a run is decoded where words follow one another, at least one, and
otherwise the defect is that of the first rest that starts with no word. There
is only one way to cut a run into words. The values are told apart by sign and
magnitude: a lone sign bit means zero, and its negative is never decoded.

The digits read so far are a chain with an exact sum, so the word or the defect
behind it is found by induction on what is unread; a rounded sum is the exact
one as long as it passes the bound. -/
theorem decode_grammar :
    (∀ (text : String) (start : Nat), decodeValue text start = decodeRounded text start) ∧
    (∀ (text : String) (start : Nat), ¬Outlasts (Units.drop start text.toList) →
      (∀ value length, decodeValue text start = .ok (value, length) ↔ ∃ word rest number,
        Units.drop start text.toList = word ++ rest ∧ Chained word number ∧
        number < Number.exactBound ∧ length = word.length ∧ value.number = signed number ∧
        value ≠ .minusZero) ∧
      ∀ fault, decodeValue text start = .error fault ↔ ∃ defect,
        FirstDefect (Units.drop start text.toList) defect ∧ fault = .malformedVlq defect none) ∧
    (∀ run : String, ¬RunOutlasts run.toList →
      (∀ values, decodeRunValues run = .ok values ↔ ∃ words : List (List Char), words ≠ [] ∧
        words.flatten = run.toList ∧ List.Forall₂ Means words (values.map Value.number) ∧
        .minusZero ∉ values) ∧
      ∀ fault, decodeRunValues run = .error fault ↔
        ∃ (words : List (List Char)) (rest : List Char) (defect : VlqDefect),
          run.toList = words.flatten ++ rest ∧ (∀ word ∈ words, IsWord word) ∧
          (words ≠ [] → rest ≠ []) ∧ FirstDefect rest defect ∧
          fault = .malformedVlq defect none) ∧
    ∀ words others : List (List Char), (∀ word ∈ words, IsWord word) →
      (∀ word ∈ others, IsWord word) → words.flatten = others.flatten → words = others :=
  ⟨decodeValue_eq_decodeRounded,
    fun _ _ short =>
      ⟨fun _ _ => decodeValue_eq_ok_iff short, fun _ => decodeValue_eq_error_iff short⟩,
    fun _ short =>
      ⟨fun _ => decodeRunValues_eq_ok_iff short, fun _ => decodeRunValues_eq_error_iff short⟩,
    fun _ _ each eachOther same => words_unique each eachOther same⟩

/-- Behind a separator a lone sign bit in two digits is decoded as zero without
a sign, and a run that goes on with no digit behind it is refused. -/
theorem decode_grammar_behind_separator :
    ¬Outlasts (Units.drop 1 ";hAB".toList) ∧ ¬RunOutlasts "gB!".toList ∧
      decodeValue ";hAB" 1 = .ok (.signed false 0, 2) ∧
      decodeRunValues "gB!" = .error (.malformedVlq (.invalidCharacter '!') none) := by
  have short : ¬Outlasts (Units.drop 1 ";hAB".toList) := not_outlasts_of_length_le (by decide)
  have shortRun : ¬RunOutlasts "gB!".toList := not_runOutlasts_of_length_le (by decide)
  have digits : digitValue? 'h' = some 33 ∧ digitValue? 'A' = some 0 ∧
      digitValue? 'g' = some 32 ∧ digitValue? 'B' = some 1 := ⟨rfl, rfl, rfl, rfl⟩
  have signBit : Chained ['h', 'A'] 1 :=
    .more digits.1 (by decide) (.last digits.2.1 (by decide))
  have word : Chained ['g', 'B'] 32 :=
    .more digits.2.2.1 (by decide) (.last digits.2.2.2 (by decide))
  have stray : FirstDefect ([] ++ '!' :: []) (.invalidCharacter '!') :=
    .invalidCharacter .nil (by decide) rfl
  obtain ⟨_, one, all, _⟩ := decode_grammar
  refine ⟨short, shortRun, ?_, ?_⟩
  · exact ((one _ _ short).1 _ _).mpr
      ⟨['h', 'A'], ['B'], 1, rfl, signBit, by decide, rfl, by decide, by decide⟩
  · exact ((all _ shortRun).2 _).mpr ⟨[['g', 'B']], ['!'], _, rfl,
      by simpa using ⟨32, by decide, word⟩, by simp,
      stray, rfl⟩

/-- The number that is decoded is that of the value that is read. -/
theorem decode_eq (text : String) (start : Nat) :
    decode text start =
      ((read (Units.drop start text.toList)).map fun reading =>
        (reading.value.number, reading.length)).mapError fun defect =>
          .malformedVlq defect none := by
  rw [decode, decodeValue]
  cases read (Units.drop start text.toList) <;> rfl

/-- The numbers that are decoded from a run are those that are read from it. -/
theorem decodeRun_eq (run : String) :
    decodeRun run = (readRun run.toList).mapError fun defect => .malformedVlq defect none := by
  rw [decodeRun, decodeRunValues, readRun]
  cases readRunValues run.toList <;> rfl

/-- A number in digits is a value of the grammar. -/
theorem chained_writeNat (number : Nat) : Chained (writeNat number) number := by
  induction number using writeNat.induct with
  | case1 number small =>
    rw [writeNat, if_pos small]
    exact .last (digitValue?_digitChar (by omega)) small
  | case2 number large inductionHypothesis =>
    have split : number = (32 + number % 32) % 32 + 32 * (number / 32) := by omega
    rw [writeNat, if_neg large]
    conv => rhs; rw [split]
    exact .more (digitValue?_digitChar (by omega)) (by omega) inductionHypothesis

/-- The digits of a value have one code unit each. -/
theorem Chained.length_ofChars {word : List Char} {number : Nat} (chained : Chained word number) :
    (Units.ofChars word).length = word.length := by
  have one {char : Char} {digit : Nat} (isDigit : digitValue? char = some digit) :
      Units.ofChar char = [char.toNat] := by
    have low : char.toNat < 0x10000 :=
      lt_of_le_of_lt (printed_of_digitValue? isDigit).2 (by decide)
    simp [Units.ofChar, low]
  induction chained with
  | last isDigit _ => simp [Units.ofChars, one isDigit]
  | more isDigit _ _ inductionHypothesis =>
    rw [Units.ofChars, List.flatMap_cons, one isDigit, List.singleton_append, List.length_cons,
      List.length_cons, ← Units.ofChars, inductionHypothesis]

/-- An encoded value is decoded behind any text and before any other. -/
theorem decode_writeInt {value : Int} (bounded : value.natAbs ≤ Coordinate.greatest)
    (before after : String) :
    decode (before ++ String.ofList (writeInt value) ++ after)
        (Units.ofChars before.toList).length =
      .ok (.ofInt value, (writeInt value).length) := by
  have rest : Units.drop (Units.ofChars before.toList).length
      (before ++ String.ofList (writeInt value) ++ after).toList =
      writeInt value ++ after.toList := by
    rw [String.toList_append, String.toList_append, String.toList_ofList, List.append_assoc,
      Units.drop_append]
  obtain ⟨reading, success, number, length, _⟩ := read_writeInt bounded after.toList
  rw [decode_eq, rest, success, ← number, ← length]
  rfl

/-- A run is written for one list of values only. -/
theorem encodeRun_injective {values others : List Number} {code : List Char}
    (written : encodeRun values = .ok code) (again : encodeRun others = .ok code) :
    others = values := by
  obtain ⟨integers, rfl, bounded, rfl⟩ := exists_writeRun_of_encodeRun written
  obtain ⟨further, rfl, boundedFurther, same⟩ := exists_writeRun_of_encodeRun again
  have readBack := readAll_writeRun boundedFurther
  rw [← same, readAll_writeRun bounded] at readBack
  exact (Except.ok.inj readBack).symm

/-- An encoded integer is decoded to itself wherever its code stands in a text,
and just the code is taken, whatever is before it and behind it. A run of
encoded integers comes apart into these integers, and it is the code of no other
values. -/
theorem decode_encode :
    (∀ value : Int, value.natAbs ≤ Coordinate.greatest →
      ∃ code, encode (.ofInt value) = .ok code ∧ ∀ before after : String,
        decode (before ++ String.ofList code ++ after) (Units.ofChars before.toList).length =
          .ok (.ofInt value, (Units.ofChars code).length)) ∧
    ∀ values : List Int, values ≠ [] → (∀ value ∈ values, value.natAbs ≤ Coordinate.greatest) →
      ∃ code, encodeRun (values.map .ofInt) = .ok code ∧
        decodeRun (String.ofList code) = .ok (values.map .ofInt) ∧
        ∀ others, encodeRun others = .ok code → others = values.map .ofInt := by
  constructor
  · intro value bounded
    refine ⟨writeInt value, encode_ofInt_eq_ok_iff.mpr ⟨bounded, rfl⟩, ?_⟩
    intro before after
    have units : (Units.ofChars (writeInt value)).length = (writeInt value).length :=
      (chained_writeNat (foldSign value)).length_ofChars
    rw [decode_writeInt bounded, units]
  · intro values inhabited bounded
    have written := encodeRun_ofInt bounded
    refine ⟨writeRun values, written, ?_, fun _ => encodeRun_injective written⟩
    rw [decodeRun_eq, String.toList_ofList, readRun_writeRun inhabited bounded]
    rfl

/-- The greatest integer and its opposite are decoded within a text and as a
run. -/
theorem decode_encode_greatest :
    (Coordinate.greatest : Int).natAbs ≤ Coordinate.greatest ∧
    (∀ value ∈ [(Coordinate.greatest : Int), -Coordinate.greatest],
      value.natAbs ≤ Coordinate.greatest) ∧
    ∃ code run, encode (.ofInt Coordinate.greatest) = .ok code ∧
      decode ("g;" ++ String.ofList code ++ "g") 2 =
        .ok (.ofInt Coordinate.greatest, (Units.ofChars code).length) ∧
      encodeRun [.ofInt Coordinate.greatest, .ofInt (-Coordinate.greatest)] = .ok run ∧
      decodeRun (String.ofList run) =
        .ok [.ofInt Coordinate.greatest, .ofInt (-Coordinate.greatest)] := by
  have bounded : (Coordinate.greatest : Int).natAbs ≤ Coordinate.greatest := by simp
  have each : ∀ value ∈ [(Coordinate.greatest : Int), -Coordinate.greatest],
      value.natAbs ≤ Coordinate.greatest := by simp
  obtain ⟨code, written, decoded⟩ := decode_encode.1 _ bounded
  obtain ⟨run, writtenRun, decodedRun, _⟩ := decode_encode.2 _ (List.cons_ne_nil _ _) each
  exact ⟨bounded, each, code, run, written, decoded "g;" "g", writtenRun, decodedRun⟩

end SourceMap.Vlq

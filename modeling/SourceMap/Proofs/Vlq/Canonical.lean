import SourceMap.Proofs.Text.UnitOrder
import SourceMap.Proofs.Vlq.Decoding

/-!
# The spelling that is written

A number can be spelled with any count of zero digits behind its data, and zero
also with a lone sign bit. Of the spellings of an integer the one that is written
has no zero digit at its end, unless that is its only digit, and no sign bit on
zero; there is no other such spelling and none that is shorter.

Spelling means being decoded from the start of a text to a finite value, with all
of the text taken. The undefined value is excluded by being finite and not by a
bound on lengths: padding with zero digits keeps a value as long as their places
have finite weight, and beyond them the value is lost. Eleven digits suffice for
the greatest magnitude.
-/

namespace SourceMap.Vlq

/-- Whether a word has one digit only or does not end in the digit for zero. -/
def Unpadded (word : List Char) : Prop := word.length = 1 ∨ word.getLast? ≠ some 'A'

/-- A digit is read from its own character only, and has six bits. -/
theorem digitChar_of_digitValue? {char : Char} {digit : Nat}
    (isDigit : digitValue? char = some digit) : digit < 64 ∧ digitChar digit = char := by
  have every : ∀ code : Fin 123, (digitValue? (Char.ofNat code)).all (fun digit =>
      digit < 64 ∧ digitChar digit = Char.ofNat code) = true := by decide
  have code : char.toNat < 123 := Nat.lt_succ_of_le (printed_of_digitValue? isDigit).2
  have here := every ⟨char.toNat, code⟩
  simpa [Char.ofNat_toNat, isDigit] using here

namespace Chained

variable {word : List Char} {number : Nat}

/-- A value whose last digit is not zero is positive. -/
theorem pos_of_getLast?_ne (chained : Chained word number) (last : word.getLast? ≠ some 'A') :
    0 < number := by
  induction chained with
  | @last char digit isDigit _ =>
    rcases Nat.eq_zero_or_pos digit with rfl | positive
    · have same := (digitChar_of_digitValue? isDigit).2
      exact absurd (congrArg some same.symm) last
    · exact positive
  | @more char digit rest later _ _ further inductionHypothesis =>
    rw [List.getLast?_cons_of_ne_nil (List.ne_nil_of_length_pos further.length_pos)] at last
    have positive := inductionHypothesis last
    omega

/-- An unpadded value is spelled as it is written.

Proof: by induction along the digits. The first digit is settled by the
remainder of the number, and whether another one follows by the number being 32
or more: a value that goes on for no reason would end in a zero digit. -/
theorem eq_writeNat (chained : Chained word number) (unpadded : Unpadded word) :
    word = writeNat number := by
  induction chained with
  | @last char digit isDigit ends =>
    rw [writeNat, if_pos ends, (digitChar_of_digitValue? isDigit).2]
  | @more char digit rest later isDigit announces further inductionHypothesis =>
    have filled := further.length_pos
    have last : rest.getLast? ≠ some 'A' := by
      rcases unpadded with single | last
      · rw [List.length_cons] at single
        omega
      · rwa [List.getLast?_cons_of_ne_nil (List.ne_nil_of_length_pos filled)] at last
    have positive := further.pos_of_getLast?_ne last
    obtain ⟨bounded, same⟩ := digitChar_of_digitValue? isDigit
    have data : 32 + (digit % 32 + 32 * later) % 32 = digit := by omega
    have behind : (digit % 32 + 32 * later) / 32 = later := by omega
    rw [writeNat, if_neg (by omega), data, behind, same, ← inductionHypothesis (Or.inr last)]

/-- No spelling of a number is shorter than the one that is written. -/
theorem length_writeNat_le (chained : Chained word number) :
    (writeNat number).length ≤ word.length := by
  induction chained with
  | last _ ends =>
    rw [writeNat, if_pos ends]
    rfl
  | @more char digit rest later _ _ _ inductionHypothesis =>
    have behind : (digit % 32 + 32 * later) / 32 = later := by omega
    rw [writeNat]
    split
    · simp
    · rw [behind, List.length_cons, List.length_cons]
      omega

end Chained

/-- A positive number is written without a zero digit at its end. -/
theorem getLast?_writeNat {number : Nat} (positive : 0 < number) :
    (writeNat number).getLast? ≠ some 'A' := by
  induction number using writeNat.induct with
  | case1 number small =>
    rw [writeNat, if_pos small]
    intro same
    have isDigit : digitValue? 'A' = some number := by
      rw [← Option.some.inj same]
      exact digitValue?_digitChar (by omega)
    obtain rfl : 0 = number := Option.some.inj isDigit
    exact positive.false
  | case2 number large inductionHypothesis =>
    rw [writeNat, if_neg large, List.getLast?_cons_of_ne_nil (writeNat_ne_nil _)]
    exact inductionHypothesis (by omega)

/-- A number is written unpadded. -/
theorem unpadded_writeNat (number : Nat) : Unpadded (writeNat number) := by
  rcases Nat.eq_zero_or_pos number with rfl | positive
  · exact Or.inl (by rw [writeNat]; rfl)
  · exact Or.inr (getLast?_writeNat positive)

/-- A number below a power of the base takes at most as many digits as its
exponent. -/
theorem length_writeNat_le_of_lt {number digits : Nat} (below : number < 32 ^ (digits + 1)) :
    (writeNat number).length ≤ digits + 1 := by
  induction digits generalizing number with
  | zero =>
    rw [writeNat, if_pos (by simpa using below)]
    rfl
  | succ digits inductionHypothesis =>
    rw [writeNat]
    split
    · simp
    · have further : number / 32 < 32 ^ (digits + 1) := by
        rw [pow_succ] at below
        exact Nat.div_lt_of_lt_mul (by omega)
      rw [List.length_cons]
      exact Nat.succ_le_succ (inductionHypothesis further)

/-- A number is the one that holds the sign of its integer, unless it is a lone
sign bit. -/
theorem foldSign_unfoldSign {number : Nat} (hasData : number ≠ 1) :
    foldSign (unfoldSign number) = number := by
  unfold foldSign unfoldSign
  split <;> split <;> omega

/-- No integer is written as a lone sign bit. -/
theorem writeInt_ne_sign (value : Int) : writeInt value ≠ ['B'] := by
  have hasData : foldSign value ≠ 1 := by
    unfold foldSign
    split <;> omega
  intro same
  have chained := chained_writeNat (foldSign value)
  rw [← writeInt, same] at chained
  generalize foldSign value = number at chained hasData
  rcases chained with ⟨isDigit, _⟩ | ⟨_, _, further⟩
  · exact hasData (Option.some.inj isDigit).symm
  · exact absurd further.length_pos (Nat.lt_irrefl 0)

/-- An integer is written in eleven digits at most. -/
theorem length_writeInt_le {value : Int} (bounded : value.natAbs ≤ Coordinate.greatest) :
    (writeInt value).length ≤ 11 := by
  have below : foldSign value < 32 ^ (10 + 1) := by
    rw [Coordinate.greatest_eq] at bounded
    unfold foldSign
    split <;> omega
  exact length_writeNat_le_of_lt below

/-- Adding a digit leads to a number only from a number, and to one below the
bound of exact integers. -/
theorem exists_of_addDigit {place data total : Nat} {state : Option Nat}
    (success : addDigit place data state = .ok (some total)) :
    ∃ number, state = some number ∧ total = number + data * 32 ^ place ∧
      total < Number.exactBound := by
  cases state with
  | none => cases success
  | some number =>
    simp only [addDigit, Nat.pow_eq] at success
    split at success
    · split at success
      · obtain rfl := Option.some.inj (Except.ok.inj success)
        exact ⟨number, rfl, rfl, ‹_›⟩
      · cases success
    · split at success
      · cases success
      · cases success

/-- Digits that are read as a number are chained, and the number is what their
data add up to. The sum starts from what was read before, at the place of the
first digit.

Proof: by induction on the digits, as reading goes through them. The last digit
ends the chain; any other one announces the rest, whose sum is 32 times as much. -/
theorem exists_chained_of_readNat {place length total : Nat} {state : Option Nat}
    {chars rest : List Char}
    (success : readNat place state chars = .ok (some total, length, rest)) :
    ∃ used spelled number, chars = used ++ rest ∧ length = place + used.length ∧
      Chained used spelled ∧ state = some number ∧ total = number + spelled * 32 ^ place ∧
      total < Number.exactBound := by
  induction chars generalizing place state with
  | nil => cases success
  | cons char tail inductionHypothesis =>
    simp only [readNat] at success
    split at success
    · cases success
    rename_i digit isDigit
    split at success
    · cases success
    rename_i added addition
    split at success
    · rename_i ends
      obtain ⟨rfl, rfl, rfl⟩ := by simpa using success
      obtain ⟨number, rfl, isTotal, exact⟩ := exists_of_addDigit addition
      rw [Nat.mod_eq_of_lt ends] at isTotal
      exact ⟨[char], digit, number, rfl, rfl, .last isDigit ends, rfl, isTotal, exact⟩
    · rename_i announces
      -- What is undefined stays so: as the total is a number, this digit led to one as well.
      obtain ⟨used, later, before, rfl, rfl, chained, rfl, isTotal, exact⟩ :=
        inductionHypothesis success
      obtain ⟨number, rfl, rfl, _⟩ := exists_of_addDigit addition
      refine ⟨char :: used, digit % 32 + 32 * later, number, rfl, ?_,
        .more isDigit (not_lt.mp announces) chained, rfl, ?_, exact⟩
      · rw [List.length_cons]
        omega
      · rw [isTotal]
        ring

/-- A text that is decoded to a finite value and taken as a whole is a word of
the grammar. -/
theorem exists_chained_of_decode {text : String} {decoded : Rat}
    (success : decode text 0 = .ok (.finite decoded, (Units.ofChars text.toList).length)) :
    ∃ number < Number.exactBound, Chained text.toList number ∧
      Number.finite decoded = .ofInt (unfoldSign number) := by
  rw [decode_eq, Walk.mapError_eq_ok, Walk.map_eq_ok] at success
  obtain ⟨reading, success, same⟩ := success
  rw [Units.drop_zero, read, Walk.map_eq_ok] at success
  obtain ⟨⟨spelled, length, rest⟩, digits, rfl⟩ := success
  obtain ⟨isValue, rfl⟩ := Prod.mk.inj same
  cases spelled with
  | none => cases isValue
  | some total =>
    obtain ⟨used, number, _, split, count, chained, fromZero, isTotal, exact⟩ :=
      exists_chained_of_readNat digits
    obtain rfl := Option.some.inj fromZero
    obtain rfl : total = number := by simpa using isTotal
    have nothing : Units.ofChars rest = [] := by
      have units := chained.length_ofChars
      rw [split, Units.ofChars, List.flatMap_append, List.length_append, ← Units.ofChars,
        units] at count
      exact List.eq_nil_of_length_eq_zero (by rw [Units.ofChars]; omega)
    obtain rfl : rest = [] := Units.ofChars_injective nothing
    rw [List.append_nil] at split
    exact ⟨total, exact, split ▸ chained, isValue.symm.trans (number_valueOf_some total)⟩

/-- The code of an integer is decoded to it and taken as a whole. -/
theorem decode_of_encode {text : String} {value : Int}
    (written : encode (.ofInt value) = .ok text.toList) :
    decode text 0 = .ok (.ofInt value, (Units.ofChars text.toList).length) := by
  obtain ⟨bounded, code⟩ := encode_ofInt_eq_ok_iff.mp written
  obtain ⟨reading, whole, number, length, _⟩ := read_writeInt bounded []
  have units : (Units.ofChars (writeInt value)).length = (writeInt value).length :=
    (chained_writeNat (foldSign value)).length_ofChars
  rw [List.append_nil] at whole
  rw [decode_eq, Units.drop_zero, code, whole, units, ← number, ← length]
  rfl

/-- An unpadded word with data is the code of its integer. -/
theorem Chained.encode_eq {word : List Char} {number : Nat} (chained : Chained word number)
    (exact : number < Number.exactBound) (unpadded : Unpadded word) (hasData : word ≠ ['B']) :
    encode (.ofInt (unfoldSign number)) = .ok word := by
  have written := chained.eq_writeNat unpadded
  have notSign : number ≠ 1 := by
    rintro rfl
    exact hasData (by rw [written, writeNat]; rfl)
  refine encode_ofInt_eq_ok_iff.mpr ⟨natAbs_unfoldSign_le exact, ?_⟩
  rw [writeInt, foldSign_unfoldSign notSign, written]

/-- The code of the integer that a word spells is no longer than the word. -/
theorem Chained.exists_encode {word : List Char} {number : Nat} (chained : Chained word number)
    (exact : number < Number.exactBound) :
    ∃ code, encode (.ofInt (unfoldSign number)) = .ok code ∧ code.length ≤ word.length := by
  refine ⟨_, encode_ofInt_eq_ok_iff.mpr ⟨natAbs_unfoldSign_le exact, rfl⟩, ?_⟩
  by_cases lone : number = 1
  · subst lone
    have zero : writeInt (unfoldSign 1) = ['A'] := by
      rw [writeInt, writeNat]
      rfl
    rw [zero]
    exact chained.length_pos
  · rw [writeInt, foldSign_unfoldSign lone]
    exact chained.length_writeNat_le

/-- The texts that integers are encoded as are just those that are decoded to a
finite value and taken as a whole, other than a lone sign bit, and without a
zero digit at their end unless it is the only one; the integer is the decoded
value. Such a text has eleven digits at most, and no text that is decoded to a
finite value and taken as a whole is shorter than the code of that value.

The text may be any string. Lengths are in code units, and a text that is
decoded as a whole has one unit for each of its digits. -/
theorem encode_canonical (text : String) :
    ((∃ value : Int, value.natAbs ≤ Coordinate.greatest ∧
        encode (.ofInt value) = .ok text.toList) ↔
      (∃ decoded : Rat,
        decode text 0 = .ok (.finite decoded, (Units.ofChars text.toList).length)) ∧
      text ≠ "B" ∧
      ((Units.ofChars text.toList).length = 1 ∨ text.toList.getLast? ≠ some 'A')) ∧
    (∀ value : Int, encode (.ofInt value) = .ok text.toList →
      decode text 0 = .ok (.ofInt value, (Units.ofChars text.toList).length) ∧
      (Units.ofChars text.toList).length ≤ 11) ∧
    ∀ decoded : Rat,
      decode text 0 = .ok (.finite decoded, (Units.ofChars text.toList).length) →
      ∃ (value : Int) (code : List Char), Number.finite decoded = .ofInt value ∧
        encode (.ofInt value) = .ok code ∧
        (Units.ofChars code).length ≤ (Units.ofChars text.toList).length := by
  refine ⟨⟨?_, ?_⟩, ?_, ?_⟩
  · rintro ⟨value, _, written⟩
    have code := (encode_ofInt_eq_ok_iff.mp written).2
    refine ⟨⟨value, decode_of_encode written⟩, ?_, ?_⟩
    · rintro rfl
      exact writeInt_ne_sign value code.symm
    · rw [code, writeInt, (chained_writeNat _).length_ofChars]
      exact unpadded_writeNat (foldSign value)
  · rintro ⟨⟨decoded, success⟩, hasData, unpadded⟩
    obtain ⟨number, exact, chained, _⟩ := exists_chained_of_decode success
    rw [chained.length_ofChars] at unpadded
    refine ⟨unfoldSign number, natAbs_unfoldSign_le exact, chained.encode_eq exact unpadded ?_⟩
    exact fun lone => hasData (String.toList_inj.mp lone)
  · intro value written
    obtain ⟨bounded, code⟩ := encode_ofInt_eq_ok_iff.mp written
    refine ⟨decode_of_encode written, ?_⟩
    rw [code, writeInt, (chained_writeNat _).length_ofChars]
    exact length_writeInt_le bounded
  · intro decoded success
    obtain ⟨number, exact, chained, isValue⟩ := exists_chained_of_decode success
    obtain ⟨code, written, shorter⟩ := chained.exists_encode exact
    obtain ⟨_, rfl⟩ := encode_ofInt_eq_ok_iff.mp written
    refine ⟨unfoldSign number, _, isValue, written, ?_⟩
    rwa [writeInt, (chained_writeNat _).length_ofChars, chained.length_ofChars]

/-- Sixteen is encoded in two digits; with a third one, for zero, it is decoded
as well, but no integer is encoded so. -/
theorem encode_canonical_sixteen :
    encode (.ofInt 16) = .ok "gB".toList ∧ decode "gB" 0 = .ok (.ofInt 16, 2) ∧
    decode "ghA" 0 = .ok (.finite 16, 3) ∧
    ¬∃ value : Int, value.natAbs ≤ Coordinate.greatest ∧
      encode (.ofInt value) = .ok "ghA".toList := by
  have written : encode (.ofInt 16) = .ok "gB".toList := by cbv
  have padded : decode "ghA" 0 = .ok (.finite 16, 3) := by cbv
  refine ⟨written, ((encode_canonical "gB").2.1 16 written).1, padded, ?_⟩
  intro encoded
  rcases ((encode_canonical "ghA").1.mp encoded).2.2 with single | last
  · exact absurd single (by decide)
  · exact absurd rfl last

end SourceMap.Vlq

import SourceMap.Json.Reader
import SourceMap.Proofs.Json.Strings

/-!
# Halves of surrogate pairs

A JSON text may spell a character of a string by its code units, and also a single
half of a surrogate pair, which is no character. A text of characters has no place
for a half on its own, so the reader puts the replacement character there, and two
strings that differ in such halves only are read as one. Where that matters a law
asks for a paired text, in which each half that is spelled has its partner next to
it.

What a paired text means is the last theorem below: every string in it is read
exactly, that is, with the code units that its pieces spell. The pieces of the
whole text are cut as those of a string are, quotes included. A quote ends a
piece, so no pair reaches from one string into another, and a string of a paired
text is paired in itself.
-/

namespace SourceMap.Json

/-- Whether a code unit is half of a surrogate pair. -/
def isHalf (unit : Nat) : Bool := isHigh unit || isLow unit

/-- The pieces of a text up to its end. A quote is a piece like others. -/
def piecesOf : List Char → List Piece
  | [] => []
  | '\\' :: 'u' :: a :: b :: c :: d :: rest =>
    .unit ((codeUnit? [a, b, c, d]).getD 0) :: piecesOf rest
  | '\\' :: letter :: rest => .char ((escaped? letter).getD letter) :: piecesOf rest
  | char :: rest => .char char :: piecesOf rest

/-- Whether each half of a surrogate pair among pieces has its partner next to
it. -/
def Paired : List Piece → Prop
  | [] => True
  | .char _ :: rest => Paired rest
  | [.unit unit] => isHalf unit = false
  | .unit unit :: .char _ :: rest => isHalf unit = false ∧ Paired rest
  | .unit first :: .unit second :: rest =>
    if isHigh first && isLow second then Paired rest
    else isHalf first = false ∧ Paired (.unit second :: rest)

instance decidablePaired : (pieces : List Piece) → Decidable (Paired pieces)
  | [] => isTrue trivial
  | .char _ :: rest => decidablePaired rest
  | [.unit unit] => inferInstanceAs (Decidable (isHalf unit = false))
  | .unit unit :: .char _ :: rest =>
    have := decidablePaired rest
    inferInstanceAs (Decidable (isHalf unit = false ∧ Paired rest))
  | .unit first :: .unit second :: rest =>
    have := decidablePaired rest
    have := decidablePaired (.unit second :: rest)
    inferInstanceAs (Decidable (if isHigh first && isLow second then Paired rest
      else isHalf first = false ∧ Paired (.unit second :: rest)))

/-- Whether no half of a surrogate pair stands alone in a text. -/
def PairedText (text : String) : Prop := Paired (piecesOf text.toList)

instance (text : String) : Decidable (PairedText text) :=
  inferInstanceAs (Decidable (Paired (piecesOf text.toList)))

/-- The code units that a piece spells. -/
def Piece.units : Piece → List Nat
  | .char found => Units.ofChar found
  | .unit found => [found]

/-- The character of a code unit that is no half of a pair has this code unit. -/
theorem ofChar_charOfUnit {unit : Nat} (small : unit < 0x10000) (whole : isHalf unit = false) :
    Units.ofChar (charOfUnit unit) = [unit] := by
  have valid : unit.isValidChar := by
    simp only [isHalf, isHigh, isLow, Bool.or_eq_false_iff, decide_eq_false_iff_not] at whole
    simp only [Nat.isValidChar]
    omega
  have code : (charOfUnit unit).toNat = unit := by
    rw [charOfUnit, if_neg (by simpa [isHalf] using whole), Char.toNat_ofNat, if_pos valid]
  rw [Units.ofChar, code, if_pos small]

/-- The character of a surrogate pair has both of its halves. -/
theorem ofChar_charOfPair {high low : Nat} (isFirst : isHigh high = true)
    (isSecond : isLow low = true) : Units.ofChar (charOfPair high low) = [high, low] := by
  simp only [isHigh, isLow, decide_eq_true_eq] at isFirst isSecond
  have code : (charOfPair high low).toNat =
      0x10000 + (high - 0xD800) * 0x400 + (low - 0xDC00) := by
    rw [charOfPair, Char.toNat_ofNat, if_pos (by simp only [Nat.isValidChar]; omega)]
  have offset : 0x10000 + (high - 0xD800) * 0x400 + (low - 0xDC00) - 0x10000 =
      (high - 0xD800) * 0x400 + (low - 0xDC00) := by omega
  have first : 0xD800 + ((high - 0xD800) * 0x400 + (low - 0xDC00)) / 0x400 = high := by omega
  have second : 0xDC00 + ((high - 0xD800) * 0x400 + (low - 0xDC00)) % 0x400 = low := by omega
  rw [Units.ofChar, code, if_neg (by omega), offset, first, second]

/-- Paired pieces join to a text with the code units that they spell. This is
where no half may stand alone: an unpaired half joins to the replacement
character, which has another code unit. -/
theorem ofChars_joinPieces {pieces : List Piece} (paired : Paired pieces)
    (small : ∀ unit, .unit unit ∈ pieces → unit < 0x10000) :
    Units.ofChars (joinPieces pieces) = pieces.flatMap Piece.units := by
  fun_induction joinPieces pieces with
  | case1 => rfl
  | case2 char rest inductionHypothesis =>
    have further := inductionHypothesis paired fun unit member =>
      small unit (List.mem_cons_of_mem _ member)
    exact congrArg (Units.ofChar char ++ ·) further
  | case3 unit =>
    have alone := ofChar_charOfUnit (small unit List.mem_cons_self) paired
    exact congrArg (· ++ []) alone
  | case4 unit char rest inductionHypothesis =>
    have alone := ofChar_charOfUnit (small unit List.mem_cons_self) paired.1
    have further := inductionHypothesis paired.2 fun other member =>
      small other (List.mem_cons_of_mem _ (List.mem_cons_of_mem _ member))
    exact congrArg₂ (fun first later => first ++ (Units.ofChar char ++ later)) alone further
  | case5 first second rest both inductionHypothesis =>
    rw [Paired, if_pos both] at paired
    rw [Bool.and_eq_true] at both
    have pair := ofChar_charOfPair both.1 both.2
    have further := inductionHypothesis paired fun other member =>
      small other (List.mem_cons_of_mem _ (List.mem_cons_of_mem _ member))
    rw [Units.ofChars, List.flatMap_cons, pair]
    exact congrArg ([first, second] ++ ·) further
  | case6 first second rest apart inductionHypothesis =>
    rw [Paired, if_neg apart] at paired
    have alone := ofChar_charOfUnit (small first List.mem_cons_self) paired.1
    have further := inductionHypothesis paired.2 fun other member =>
      small other (List.mem_cons_of_mem _ member)
    exact congrArg₂ (· ++ ·) alone further

/-- Around a quote pieces are paired on either side of it. -/
theorem paired_append_char {before after : List Piece} {char : Char} :
    Paired (before ++ .char char :: after) ↔ Paired before ∧ Paired after := by
  fun_induction Paired before with
  | case1 => simp [Paired]
  | case2 other rest inductionHypothesis => exact inductionHypothesis
  | case3 unit => simp [Paired]
  | case4 unit other rest inductionHypothesis =>
    rw [and_assoc, ← inductionHypothesis]
    rfl
  | case5 first second rest both inductionHypothesis =>
    rw [← inductionHypothesis]
    simp only [List.cons_append, Paired, both, if_true]
  | case6 first second rest apart inductionHypothesis =>
    rw [and_assoc, ← inductionHypothesis]
    simp only [List.cons_append, Paired, apart]
    rfl

/-- Four digits spell a code unit. -/
theorem codeUnit?_lt {a b c d : Char} {unit : Nat} (found : codeUnit? [a, b, c, d] = some unit) :
    unit < 0x10000 := by
  obtain ⟨digits, spelled⟩ := Option.ite_none_right_eq_some.mp found
  obtain rfl := Option.some.inj spelled
  simp only [List.all_cons, List.all_nil, Bool.and_true, Bool.and_eq_true,
    decide_eq_true_eq] at digits
  obtain ⟨first, second, third, fourth⟩ := digits
  simp only [Numeral.natOf, List.foldl_cons, List.foldl_nil]
  omega

/-- What is read of a string are the pieces of the text up to the quote that
ends it. The first conclusion is about the text behind the opening quote, and
with it a string can be followed by others. -/
theorem piecesOf_of_readPieces {chars rest : List Char} {pieces : List Piece}
    (read : readPieces chars = some (pieces, rest)) :
    piecesOf chars = pieces ++ .char '"' :: piecesOf rest ∧
      ∀ unit, .unit unit ∈ pieces → unit < 0x10000 := by
  fun_induction readPieces chars generalizing pieces with
  | case1 => cases read
  | case2 after =>
    obtain ⟨rfl, rfl⟩ := Prod.mk.inj (Option.some.inj read)
    exact ⟨rfl, by simp⟩
  | case3 a b c d after inductionHypothesis =>
    obtain ⟨unit, found, read⟩ := Option.bind_eq_some_iff.mp read
    obtain ⟨⟨later, left⟩, further, read⟩ := Option.bind_eq_some_iff.mp read
    obtain ⟨rfl, rfl⟩ := Prod.mk.inj (Option.some.inj read)
    obtain ⟨same, small⟩ := inductionHypothesis further
    refine ⟨by rw [piecesOf, found, same]; rfl, fun other member => ?_⟩
    rcases List.mem_cons.mp member with isFirst | member
    · obtain rfl := Piece.unit.inj isFirst
      exact codeUnit?_lt found
    · exact small other member
  | case4 letter after notDigits inductionHypothesis =>
    obtain ⟨char, found, read⟩ := Option.bind_eq_some_iff.mp read
    obtain ⟨⟨later, left⟩, further, read⟩ := Option.bind_eq_some_iff.mp read
    obtain ⟨rfl, rfl⟩ := Prod.mk.inj (Option.some.inj read)
    obtain ⟨same, small⟩ := inductionHypothesis further
    refine ⟨?_, fun other member => small other (by simpa using member)⟩
    rw [piecesOf, found, same]
    · rfl
    · exact notDigits
  | case5 => cases read
  | case6 char after _ notDigits notLetter _ inductionHypothesis =>
    obtain ⟨⟨later, left⟩, further, read⟩ := Option.bind_eq_some_iff.mp read
    obtain ⟨rfl, rfl⟩ := Prod.mk.inj (Option.some.inj read)
    obtain ⟨same, small⟩ := inductionHypothesis further
    refine ⟨?_, fun other member => small other (by simpa using member)⟩
    rw [piecesOf, same]
    · rfl
    · exact notDigits
    · exact notLetter

/-- A string of a paired text is read exactly: it has the code units that its
pieces spell. The rest of the text is paired as well. -/
theorem readString_exact {chars rest : List Char} {text : String} (paired : Paired (piecesOf chars))
    (read : readString chars = some (text, rest)) :
    ∃ pieces, readPieces chars = some (pieces, rest) ∧
      Units.ofChars text.toList = pieces.flatMap Piece.units ∧ Paired (piecesOf rest) := by
  obtain ⟨⟨pieces, left⟩, readToo, read⟩ := Option.bind_eq_some_iff.mp read
  obtain ⟨rfl, rfl⟩ := Prod.mk.inj (Option.some.inj read)
  obtain ⟨same, small⟩ := piecesOf_of_readPieces readToo
  rw [same, paired_append_char] at paired
  refine ⟨pieces, readToo, ?_, paired.2⟩
  rw [String.toList_ofList]
  exact ofChars_joinPieces paired.1 small

/-- Two halves next to each other are paired, and no half is behind a backslash
that is escaped. A quote parts what stands on either side of it. -/
example : PairedText "[\"\\ud83d\\ude00\", \"\\\\ud800\"]" ∧
    ¬PairedText "[\"\\ud83d\", \"\\ude00\"]" := by
  decide +kernel

end SourceMap.Json

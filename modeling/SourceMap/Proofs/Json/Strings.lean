import Mathlib
import SourceMap.Json.Reader
import SourceMap.Json.Writer

/-!
# Strings in JSON text

A string is written with every quote, backslash and control character escaped, and
reading its text undoes that character by character. A control character without a
letter of its own is written by its digits; it is no half of a surrogate pair, so
it never joins with its neighbour.

All strings are covered, since they are made of whole characters. The reader works
in two rounds: it takes a text apart into pieces, characters and code units, and
then joins the pieces. What is written has one piece for each character, so the
second round joins nothing.
-/

namespace SourceMap.Json

/-- The control characters that are escaped by a letter. -/
def letteredControls : List Char := ['\x08', '\t', '\n', '\x0c', '\r']

/-- What a character is read as once it is written. -/
def pieceOf (char : Char) : Piece :=
  if char.toNat < 0x20 ∧ char ∉ letteredControls then .unit char.toNat else .char char

/-- The four digits of a control character spell it. -/
theorem codeUnit?_control : ∀ unit < 0x20,
    codeUnit? ['0', '0', hexDigit (unit / 16), hexDigit unit] = some unit := by
  decide

/-- A character that is not escaped is read as it stands. -/
theorem readPieces_plain {char : Char} (noQuote : char ≠ '"') (noBackslash : char ≠ '\\')
    (noControl : ¬char.toNat < 0x20) (rest : List Char) :
    readPieces (char :: rest) =
      (readPieces rest).map fun read => (.char char :: read.1, read.2) := by
  rw [readPieces]
  · simp only [noControl, noBackslash, or_self, if_false, Option.map_eq_bind, Function.comp_def]
    rfl
  all_goals intros; simp_all

/-- A character that is escaped by a letter is read as the letter's character. -/
theorem readPieces_letter {letter char : Char} (notDigits : letter ≠ 'u')
    (found : escaped? letter = some char) (rest : List Char) :
    readPieces ('\\' :: letter :: rest) =
      (readPieces rest).map fun read => (.char char :: read.1, read.2) := by
  rw [readPieces]
  · rw [found, Option.map_eq_bind]
    rfl
  · intros
    simp_all

/-- A character that is escaped by its digits is read as a code unit. -/
theorem readPieces_digits {digits : List Char} {unit : Nat} (four : digits.length = 4)
    (found : codeUnit? digits = some unit) (rest : List Char) :
    readPieces ('\\' :: 'u' :: digits ++ rest) =
      (readPieces rest).map fun read => (.unit unit :: read.1, read.2) := by
  match digits, four with
  | [a, b, c, d], _ =>
    simp only [List.cons_append, List.nil_append]
    rw [readPieces, found, Option.map_eq_bind]
    rfl

/-- A written character is read as its piece. -/
theorem readPieces_writeChar (char : Char) (rest : List Char) :
    readPieces (writeChar char ++ rest) =
      (readPieces rest).map fun read => (pieceOf char :: read.1, read.2) := by
  by_cases lettered : char ∈ '"' :: '\\' :: letteredControls
  · simp only [letteredControls, List.mem_cons, List.not_mem_nil, or_false] at lettered
    rcases lettered with rfl | rfl | rfl | rfl | rfl | rfl | rfl
    all_goals exact readPieces_letter (by decide) rfl rest
  · simp only [List.mem_cons, not_or] at lettered
    obtain ⟨noQuote, noBackslash, noLetter⟩ := lettered
    have spelled : writeChar char = if char.toNat < 0x20 then
        ['\\', 'u', '0', '0', hexDigit (char.toNat / 16), hexDigit char.toNat] else [char] := by
      simp only [letteredControls, List.mem_cons, List.not_mem_nil, or_false, not_or] at noLetter
      simp [writeChar, noQuote, noBackslash, noLetter]
    rw [spelled, pieceOf]
    by_cases control : char.toNat < 0x20
    · rw [if_pos control, if_pos ⟨control, noLetter⟩]
      exact readPieces_digits rfl (codeUnit?_control char.toNat control) rest
    · rw [if_neg control, if_neg fun both => control both.1]
      exact readPieces_plain noQuote noBackslash control rest

/-- The written characters of a string are read up to the quote that ends it. -/
theorem readPieces_flatMap_writeChar (chars rest : List Char) :
    readPieces (chars.flatMap writeChar ++ '"' :: rest) = some (chars.map pieceOf, rest) := by
  induction chars with
  | nil => rw [List.flatMap_nil, List.nil_append, readPieces, List.map_nil]
  | cons char chars inductionHypothesis =>
    rw [List.flatMap_cons, List.append_assoc, readPieces_writeChar, inductionHypothesis,
      Option.map_some, List.map_cons]

/-- A code unit below the surrogates is a character by itself, whatever follows
it. -/
theorem joinPieces_unit {unit : Nat} (low : unit < 0xD800) (rest : List Piece) :
    joinPieces (.unit unit :: rest) = Char.ofNat unit :: joinPieces rest := by
  have notHigh : isHigh unit = false := decide_eq_false fun high => by omega
  have notLow : isLow unit = false := decide_eq_false fun isLow => by omega
  have alone : charOfUnit unit = Char.ofNat unit := by
    simp [charOfUnit, notHigh, notLow]
  cases rest with
  | nil => simp [joinPieces, alone]
  | cons piece rest =>
    cases piece with
    | char char => simp [joinPieces, alone]
    | unit second => simp [joinPieces, alone, notHigh]

/-- The pieces of a text spell it. -/
theorem joinPieces_map_pieceOf (chars : List Char) : joinPieces (chars.map pieceOf) = chars := by
  induction chars with
  | nil => rfl
  | cons char chars inductionHypothesis =>
    rw [List.map_cons, pieceOf]
    split
    · rename_i control
      rw [joinPieces_unit (by omega), inductionHypothesis, Char.ofNat_toNat]
    · rw [joinPieces, inductionHypothesis]

/-- A written string is read up to the quote that ends it, after the one that
starts it. -/
theorem readString_writeString (value : String) (rest : List Char) :
    readString (value.toList.flatMap writeChar ++ '"' :: rest) = some (value, rest) := by
  simp [readString, readPieces_flatMap_writeChar, joinPieces_map_pieceOf]

end SourceMap.Json

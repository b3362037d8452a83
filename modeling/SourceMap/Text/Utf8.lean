import SourceMap.Text.Units

/-!
# Reading octets as text

Well-formed UTF-8 is read as the characters it encodes. Where it is ill-formed,
each longest start of a well-formed sequence that is not continued, and each octet
that starts no sequence, becomes one replacement character. A byte order mark is a
character like any other.

Reading never fails, so a file of any octets has a text. It is not injective:
different ill-formed octets can give the same text. The other direction, from a
text to octets, is that of the standard library and is not described here.
-/

namespace SourceMap
namespace Utf8

/-- What the octet at the start of a sequence announces: how many octets follow,
the bits it contributes itself, and the range of the octet right after it. -/
structure Lead where
  following : Nat
  bits : Nat
  least : Nat
  greatest : Nat

/-- The octets that start a sequence of two to four. The narrower ranges exclude
overlong forms, surrogates and code points past the last one. -/
def lead? (octet : Nat) : Option Lead :=
  if 0xC2 ≤ octet ∧ octet ≤ 0xDF then some ⟨1, octet - 0xC0, 0x80, 0xBF⟩
  else if octet = 0xE0 then some ⟨2, 0, 0xA0, 0xBF⟩
  else if octet = 0xED then some ⟨2, 0xD, 0x80, 0x9F⟩
  else if 0xE1 ≤ octet ∧ octet ≤ 0xEF then some ⟨2, octet - 0xE0, 0x80, 0xBF⟩
  else if octet = 0xF0 then some ⟨3, 0, 0x90, 0xBF⟩
  else if 0xF1 ≤ octet ∧ octet ≤ 0xF3 then some ⟨3, octet - 0xF0, 0x80, 0xBF⟩
  else if octet = 0xF4 then some ⟨3, 4, 0x80, 0x8F⟩
  else none

/-- Continue a sequence: the character it encodes, or the replacement character
where it breaks off, and what follows. The octet that breaks it off is left for
the next. -/
def continueWith : Lead → List Nat → Char × List Nat
  | ⟨0, bits, _, _⟩, octets => (Char.ofNat bits, octets)
  | ⟨_ + 1, _, _, _⟩, [] => (Units.replacement, [])
  | ⟨following + 1, bits, least, greatest⟩, octet :: rest =>
    if least ≤ octet ∧ octet ≤ greatest then
      continueWith ⟨following, bits * 64 + (octet - 0x80), 0x80, 0xBF⟩ rest
    else (Units.replacement, octet :: rest)
termination_by _ octets => octets.length

/-- Continuing a sequence never lengthens what is left to read. -/
theorem continueWith_length (lead : Lead) (octets : List Nat) :
    (continueWith lead octets).2.length ≤ octets.length := by
  fun_induction continueWith lead octets with
  | case1 => simp
  | case2 => simp
  | case3 following bits least greatest octet rest _ inductionHypothesis =>
    exact Nat.le_succ_of_le inductionHypothesis
  | case4 => simp

/-- The text that a sequence of octets encodes. -/
def decode : List Nat → List Char
  | [] => []
  | octet :: rest =>
    if octet < 0x80 then Char.ofNat octet :: decode rest
    else match lead? octet with
      | none => Units.replacement :: decode rest
      | some lead =>
        let continued := continueWith lead rest
        continued.1 :: decode continued.2
termination_by octets => octets.length
decreasing_by
  · simp
  · simp
  · exact Nat.lt_succ_of_le (continueWith_length lead rest)

/-- The text that a sequence of octets encodes, as a string. -/
def text (octets : List Nat) : String := String.ofList (decode octets)

end Utf8
end SourceMap

/-!
# Blank characters

Blank are the tab, the line feed, the vertical tab, the form feed, the carriage
return, the byte order mark, the line and paragraph separators and every character
of the Unicode category of space separators. The next-line control, the Mongolian
vowel separator and the zero-width space are not blank.

A group of a mappings text that has only blank characters counts as an empty one,
and the field names of a record are read without the blanks around them. JSON text
has its own, smaller set of spaces in `Json.skipSpace`.
-/

namespace SourceMap
namespace Blank

/-- The blank characters, as inclusive ranges of code points. -/
def ranges : List (Nat × Nat) :=
  [(0x0009, 0x000D), (0x0020, 0x0020), (0x00A0, 0x00A0), (0x1680, 0x1680), (0x2000, 0x200A),
   (0x2028, 0x2029), (0x202F, 0x202F), (0x205F, 0x205F), (0x3000, 0x3000), (0xFEFF, 0xFEFF)]

/-- Membership in the set of blank characters. -/
def isBlank (char : Char) : Bool :=
  ranges.any fun (first, last) => decide (first ≤ char.toNat ∧ char.toNat ≤ last)

/-- A text without any other than blank characters; the empty text is one. -/
def isBlankText (chars : List Char) : Bool := chars.all isBlank

/-- A text without the blank characters at its two ends. -/
def trim (chars : List Char) : List Char :=
  ((chars.dropWhile isBlank).reverse.dropWhile isBlank).reverse

end Blank
end SourceMap

import SourceMap.Text.Units

/-!
# Styled text

A style encloses text between two control sequences. Text that holds the closing
sequence itself would end the style early, so each one inside is replaced. The
search for it starts as far into the text as the opening sequence is long, counted
in code units.

The replacement is that of the style: a colour opens itself again, and an
intensity ends and then opens again, because the two intensities share their
closing sequence. The opening sequence is not yet part of the text that is
searched, so a closing one among the first few units of the text is left as it is.
-/

namespace SourceMap
namespace Console

/-- The control sequences of a style, and what stands for a closing one inside. -/
structure Style where
  opening : List Char
  closing : List Char
  reopening : List Char
deriving DecidableEq

/-- The control sequence of a display attribute. -/
def control (code : String) : List Char := '\x1b' :: '[' :: code.toList ++ ['m']

namespace Style

/-- The style of a colour; the default colour ends it. -/
def colour (code : String) : Style := ⟨control code, control "39", control code⟩

/-- The style of an intensity; since intensities end together, one that was
ended is followed by itself. -/
def intensity (code : String) : Style :=
  ⟨control code, control "22", control "22" ++ control code⟩

/-- Red text, for errors. -/
def red : Style := colour "31"

/-- Green text, for success. -/
def green : Style := colour "32"

/-- Yellow text, for warnings. -/
def yellow : Style := colour "33"

/-- Cyan text, for labels. -/
def cyan : Style := colour "36"

/-- Bold text, for what a line is about. -/
def bold : Style := intensity "1"

/-- Dim text, for details. -/
def dim : Style := intensity "2"

end Style

/-- Replace every occurrence of a pattern, from the start on and without
overlaps. -/
def replaceEach (pattern replacement : List Char) (chars : List Char) : List Char :=
  match chars with
  | [] => []
  | char :: rest =>
    if pattern.isPrefixOf (char :: rest) then
      replacement ++ replaceEach pattern replacement (rest.drop (pattern.length - 1))
    else char :: replaceEach pattern replacement rest
termination_by chars.length
decreasing_by all_goals simp; try omega

/-- Enclose a text in a style. -/
def Style.apply (style : Style) (text : String) : String :=
  let (before, searched) := Units.splitAt style.opening.length text.toList
  String.ofList (style.opening ++ before ++ replaceEach style.closing style.reopening searched ++
    style.closing)

end Console
end SourceMap

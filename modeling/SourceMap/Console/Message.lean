import SourceMap.Console.Style
import SourceMap.Fault

/-!
# Console messages

What a build prints about its source maps: a map that was composed, a map that was
skipped, and an error with a dimmed second line of detail.

A message is built as data, a level and a styled text. Which stream a level goes
to, and whether a terminal shows the styles, is decided where lines are printed
and is not described here. The numbers of a message go through `Number.text`, so
they print as everywhere else; a fault is summed up by its name and its message,
and a message that is empty leaves the name alone.
-/

namespace SourceMap
namespace Console

/-- How much a line matters. -/
inductive Level where
  | log
  | warn
  | error
deriving DecidableEq, Inhabited

/-- The name of a level. -/
def Level.label : Level → String
  | .log => "log"
  | .warn => "warn"
  | .error => "error"

/-- One line on the console; its text may hold line breaks of its own. -/
structure Line where
  level : Level
  text : String
deriving DecidableEq, Inhabited

/-- The label that a line starts with. -/
def scopeLabel (style : Style) (scope : String) : String := style.apply ("[" ++ scope ++ "]")

/-- A map was composed and written to a path. -/
def composed (scope path : String) (kept dropped : Number) : Line where
  level := .log
  text := scopeLabel .cyan scope ++ " " ++ Style.green.apply "✓" ++ " Composed " ++
    Style.bold.apply path ++ " " ++
    Style.dim.apply (kept.text ++ " mapped, " ++ dropped.text ++ " dropped")

/-- A map was not processed. -/
def skipped (scope message : String) : Line where
  level := .warn
  text := scopeLabel .yellow scope ++ " " ++ Style.yellow.apply "-" ++ " " ++ message

/-- Something went wrong; the detail, if there is any, has a line of its own. -/
def error (scope message : String) (detail : Option String) : List Line :=
  { level := .error
    text := scopeLabel .red scope ++ " " ++ Style.red.apply "✗" ++ " " ++ message } ::
  (detail.map fun detail => { level := .error, text := Style.dim.apply detail : Line }).toList

/-- How an error is summed up: its name, and its message if it has one. -/
def headline (name message : String) : String :=
  if message = "" then name else name ++ ": " ++ message

/-- How a fault is summed up. -/
def faultHeadline (fault : Fault) : String := headline fault.name fault.message

end Console
end SourceMap

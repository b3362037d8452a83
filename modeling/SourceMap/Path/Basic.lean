/-!
# Paths

A path is written as names between slashes. A path that starts with a slash starts
with an empty name, and one that ends in a slash ends with one.

Splitting and joining are inverse to each other on lists of names without slashes.
The empty path has one name, the empty one; so there is always a last name, and
the base name of a path that ends in a slash is empty. There are no drives, no
backslashes as separators and no protocols.
-/

namespace SourceMap
namespace Path

/-- The names of a written path. -/
def split (path : String) : List String := (path.toList.splitOn '/').map String.ofList

/-- The written path of names. -/
def join (names : List String) : String :=
  String.ofList (['/'].intercalate (names.map String.toList))

/-- The last name of a path. -/
def baseName (path : String) : String := (split path).getLastD ""

/-- Whether a path starts at the top of a file tree. -/
def isAbsolute (path : String) : Bool := path.toList.head? == some '/'

end Path
end SourceMap

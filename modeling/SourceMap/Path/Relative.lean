import SourceMap.Path.Basic

/-!
# Relative paths

The relative path from a file to another one leaves the directory of the first up
to where the two paths part, one `..` for each directory, and goes down along the
second.

Both paths are compared name by name as they are written. They are not normalised
first, so a `.` or `..` inside counts as a name like any other. The target is
compared with its last name included, so the path to a directory above the first
file ends in nothing but `..`, and the path from a file to itself is its last
name.
-/

namespace SourceMap
namespace Path

/-- Two lists of names without their common start. -/
def dropCommon : List String → List String → List String × List String
  | first :: left, second :: right =>
    if first = second then dropCommon left right else (first :: left, second :: right)
  | left, right => (left, right)

/-- The path that leads from a file to another one. -/
def relative (source target : String) : String :=
  let (up, down) := dropCommon (split source).dropLast (split target)
  join (List.replicate up.length ".." ++ down)

end Path
end SourceMap

import SourceMap.Path.Basic

/-!
# Absolute paths

An absolute path is the list of names that leads to it from the top of a file
tree. Resolving a path against a directory drops empty names and `.`, and lets
`..` cancel the name before it; at the top it cancels nothing.

Resolution works on names alone. It does not look at a tree, so a path resolves
the same way whether or not anything is there, and there are no links that `..`
could leave by another way than it was entered. A tree is asked only when a path
is read or written.
-/

namespace SourceMap

/-- The names from the top of a file tree. -/
abbrev AbsolutePath := List String

namespace AbsolutePath

/-- The path one name further: the empty name and `.` stay, `..` goes up. -/
def step (here : AbsolutePath) (name : String) : AbsolutePath :=
  if name = "" ∨ name = "." then here
  else if name = ".." then here.dropLast
  else here ++ [name]

/-- The directory that a written path starts from: the top if it is absolute. -/
def base (directory : AbsolutePath) (path : String) : AbsolutePath :=
  if Path.isAbsolute path then [] else directory

/-- The path that a written one denotes when it is read from a directory. -/
def resolve (directory : AbsolutePath) (path : String) : AbsolutePath :=
  (Path.split path).foldl step (base directory path)

/-- The written form of an absolute path. -/
def text (path : AbsolutePath) : String := "/" ++ Path.join path

end AbsolutePath
end SourceMap

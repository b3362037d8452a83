import SourceMap.Path.Absolute
import SourceMap.Text.Units

/-!
# File trees

A file tree maps absolute paths to texts and directories; the top is always a
directory. A path is walked name by name, and every name but the last must lead to
a directory. Writing a file first makes the directories on the way to it; they
stay even when the writing itself fails.

There are no links, no permissions and no limits on names or sizes, so the faults
are the four that a walk can meet. An operation returns the tree after it beside
its result, also when it fails; that a failure leaves the tree as it was has to be
proved where it is claimed.
-/

namespace SourceMap

/-- What a path can lead to. -/
inductive FileNode where
  | file (text : String)
  | directory
deriving DecidableEq, Inhabited

/-- What can be wrong with a file operation. -/
inductive FileFault where
  | notFound
  | notDirectory
  | isDirectory
  | alreadyThere
deriving DecidableEq, Inhabited

/-- The code of a fault of the file system. -/
def FileFault.code : FileFault → String
  | .notFound => "ENOENT"
  | .notDirectory => "ENOTDIR"
  | .isDirectory => "EISDIR"
  | .alreadyThere => "EEXIST"

/-- Files and directories by their path, the top left out. -/
structure FileTree where
  nodes : List (AbsolutePath × FileNode)
deriving DecidableEq, Inhabited

namespace FileTree

/-- The tree of the top alone. -/
def empty : FileTree := ⟨[]⟩

/-- What a path leads to. -/
def node? (tree : FileTree) (path : AbsolutePath) : Option FileNode :=
  if path = [] then some .directory else tree.nodes.lookup path

/-- Let a path lead to a node. -/
def put (tree : FileTree) (path : AbsolutePath) (node : FileNode) : FileTree :=
  ⟨(path, node) :: tree.nodes.filter fun entry => entry.1 ≠ path⟩

/-- Go one name further, from a directory. -/
def enter (tree : FileTree) (here : AbsolutePath) (name : String) :
    Except FileFault AbsolutePath :=
  match tree.node? here with
  | some .directory => .ok (here.step name)
  | some (.file _) => .error .notDirectory
  | none => .error .notFound

/-- The text of the file that a written path leads to from a directory. -/
def read (tree : FileTree) (directory : AbsolutePath) (path : String) :
    Except FileFault String := do
  let place ← (Path.split path).foldlM tree.enter (AbsolutePath.base directory path)
  match tree.node? place with
  | some (.file text) => return text
  | some .directory => throw .isDirectory
  | none => throw .notFound

/-- The text of a file, if it can be read. -/
def read? (tree : FileTree) (directory : AbsolutePath) (path : String) : Option String :=
  (tree.read directory path).toOption

/-- Make the directories that names lead through, and the last one itself: the
tree after it, and the directory reached. What was made before a fault stays. -/
def makeDirectories (tree : FileTree) (here : AbsolutePath) :
    List String → FileTree × Except FileFault AbsolutePath
  | [] =>
    match tree.node? here with
    | some (.file _) => (tree, .error .alreadyThere)
    | _ => (tree, .ok here)
  | name :: rest =>
    match tree.node? here with
    | some (.file _) => (tree, .error .notDirectory)
    | _ =>
      let there := here.step name
      match tree.node? there with
      | some _ => tree.makeDirectories there rest
      | none => (tree.put there .directory).makeDirectories there rest

/-- Write a file, in directories that are made where they are missing: the tree
after it, and the fault if there was one. A path that ends in a slash is that of
a directory. -/
def write (tree : FileTree) (directory : AbsolutePath) (path text : String) :
    FileTree × Except FileFault Unit :=
  let names := Path.split path
  let bare := (names.reverse.dropWhile (· == "")).reverse
  match tree.makeDirectories (AbsolutePath.base directory path) bare.dropLast with
  | (tree, .error fault) => (tree, .error fault)
  | (tree, .ok here) =>
    let place := here.step (bare.getLastD "")
    if path = "" then (tree, .error .notFound)
    else if bare.length < names.length then (tree, .error .isDirectory)
    else
      match tree.node? place with
      | some .directory => (tree, .error .isDirectory)
      | _ => (tree.put place (.file text), .ok ())

/-- Everything below a directory, by its path from there, in the order of these
paths. -/
def listing (tree : FileTree) (directory : AbsolutePath) : List (String × FileNode) :=
  let below := tree.nodes.filterMap fun (path, node) =>
    if directory.isPrefixOf path ∧ path ≠ directory then
      some (Path.join (path.drop directory.length), node)
    else none
  below.mergeSort fun left right => (Units.compare left.1 right.1).isLE

end FileTree
end SourceMap

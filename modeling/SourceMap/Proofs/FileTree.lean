import SourceMap.FileTree
import SourceMap.Proofs.Path.Absolute
import SourceMap.Proofs.Walk

/-!
# Reading and writing in a file tree

A file is read at a path exactly if the file is there and everything above it is a
directory. Writing a file changes nothing but the path to it: the file is at its
end, and above it are directories, those that were there before and those that
were missing.

Both are stated for normal paths, which is what resolving leads to; a written path
with `..` may walk through directories that its resolved form never names. No tree
is assumed to be in order: where a node is below a file, reading does not get
there and writing fails. What a writing that fails has left behind is not
described by `Wrote`; the directories made before the fault stay in the tree.
-/

namespace SourceMap
namespace FileTree

variable {tree before after : FileTree} {here there place : AbsolutePath} {names : List String}
  {text : String}

/-- The top is a directory. -/
theorem node?_top (tree : FileTree) : tree.node? [] = some .directory := if_pos rfl

/-- A path below the top leads to the node that was put there. -/
theorem node?_put_self (tree : FileTree) (below : place ≠ []) (node : FileNode) :
    (tree.put place node).node? place = some node := by
  rw [node?, if_neg below, put, List.lookup_cons_self]

/-- Other paths lead to the same nodes as before. -/
theorem node?_put_of_ne (tree : FileTree) {path : AbsolutePath} (other : path ≠ place)
    (node : FileNode) : (tree.put place node).node? path = tree.node? path := by
  have kept (nodes : List (AbsolutePath × FileNode)) :
      (nodes.filter fun entry => entry.1 ≠ place).lookup path = nodes.lookup path := by
    induction nodes with
    | nil => rfl
    | cons entry rest inductionHypothesis =>
      by_cases replaced : entry.1 = place
      · have different : (path == entry.1) = false := by simpa [replaced] using other
        rw [List.filter_cons_of_neg (by simpa using replaced), inductionHypothesis,
          List.lookup_cons, different]
      · rw [List.filter_cons_of_pos (by simpa using replaced), List.lookup_cons, List.lookup_cons,
          inductionHypothesis]
  have different : (path == place) = false := by simpa using other
  rw [node?, node?, put, List.lookup_cons, different, kept]

/-- Whether everything above a place is a directory. -/
def Reaches (tree : FileTree) (place : AbsolutePath) : Prop :=
  ∀ parent, parent <+: place → parent ≠ place → tree.node? parent = some .directory

/-- Whether a place and everything above it are directories. -/
def IsDirectory (tree : FileTree) (place : AbsolutePath) : Prop :=
  ∀ parent, parent <+: place → tree.node? parent = some .directory

/-- The top is a directory below nothing else. -/
theorem isDirectory_top (tree : FileTree) : tree.IsDirectory [] := by
  intro parent above
  rw [List.prefix_nil.mp above, node?_top]

/-- Above a name is its directory. -/
theorem reaches_concat_iff {name : String} :
    tree.Reaches (place ++ [name]) ↔ tree.IsDirectory place := by
  constructor
  · intro reaches parent above
    refine reaches parent (List.prefix_concat_iff.mpr (Or.inr above)) ?_
    rintro rfl
    simpa using above.length_le
  · intro directories parent above proper
    exact directories parent ((List.prefix_concat_iff.mp above).resolve_left proper)

/-- Going one name down works from a directory only. -/
theorem enter_eq_ok {name : String} (down : AbsolutePath.IsDown name) :
    tree.enter here name = .ok there ↔
      tree.node? here = some .directory ∧ there = here ++ [name] := by
  rw [enter, AbsolutePath.step_eq down]
  split
  · rename_i found
    simp [found, eq_comm]
  · rename_i found
    simp [found]
  · rename_i found
    simp [found]

/-- A walk along names ends if each of them but the last leads to a directory, and
then it ends below all of them. Whether there is anything under the last name, and
what it is, does not matter. The names have to lead down, as those of a normal
path do. -/
theorem foldlM_enter_eq_ok (down : ∀ name ∈ names, AbsolutePath.IsDown name) :
    names.foldlM tree.enter here = .ok there ↔
      there = here ++ names ∧
        ∀ parent, parent <+: names → parent ≠ names →
          tree.node? (here ++ parent) = some .directory := by
  induction names generalizing here with
  | nil =>
    rw [List.foldlM_nil, List.append_nil]
    constructor
    · intro ended
      refine ⟨(Except.ok.inj ended).symm, fun parent above proper => ?_⟩
      exact absurd (List.prefix_nil.mp above) proper
    · rintro ⟨rfl, _⟩
      rfl
  | cons name rest inductionHypothesis =>
    rw [List.foldlM_cons, Walk.bind_eq_ok]
    simp only [enter_eq_ok (down name List.mem_cons_self), inductionHypothesis fun other member =>
      down other (List.mem_cons_of_mem name member)]
    constructor
    · rintro ⟨_, ⟨directory, rfl⟩, rfl, further⟩
      refine ⟨by simp, fun parent above proper => ?_⟩
      rcases List.prefix_cons_iff.mp above with rfl | ⟨parent, rfl, inside⟩
      · rwa [List.append_nil]
      · rw [List.append_cons]
        exact further parent inside fun same => proper (congrArg _ same)
    · rintro ⟨rfl, directories⟩
      refine ⟨here ++ [name], ⟨?_, rfl⟩, by simp, fun parent above proper => ?_⟩
      · simpa using directories [] List.nil_prefix (List.cons_ne_nil name rest).symm
      · rw [List.append_assoc]
        refine directories (name :: parent) (List.cons_prefix_cons.mpr ⟨rfl, above⟩) ?_
        exact fun same => proper (List.cons.inj same).2

/-- The empty name before the first slash stays at the top. -/
theorem enter_top (tree : FileTree) : tree.enter [] "" = .ok [] := by
  rw [enter, node?_top]
  rfl

/-- A written normal path is walked like its names. -/
theorem foldlM_enter_split (tree : FileTree) (normal : place.Normal) :
    (Path.split place.text).foldlM tree.enter [] = place.foldlM tree.enter [] := by
  by_cases top : place = []
  · subst top
    change tree.enter [] "" >>= (fun here => tree.enter here "" >>= pure) = _
    rw [enter_top]
    exact congrArg (· >>= pure) (enter_top tree)
  · rw [AbsolutePath.split_text normal top, List.foldlM_cons, enter_top]
    rfl

/-- At a normal path a text is read exactly if it is that of the file there and
everything above is a directory.

Proof: the written form of the path is split into its names again, and the walk
along them ends at the path itself if each directory on the way is there. The
top needs a case of its own, since it is written as a lone slash and is no file. -/
theorem read?_text_eq_some_iff (normal : place.Normal) :
    tree.read? [] place.text = some text ↔
      tree.Reaches place ∧ tree.node? place = some (.file text) := by
  have walk (there : AbsolutePath) : (Path.split place.text).foldlM tree.enter
      (AbsolutePath.base [] place.text) = .ok there ↔ there = place ∧ tree.Reaches place := by
    rw [AbsolutePath.base_text, foldlM_enter_split tree normal, foldlM_enter_eq_ok normal]
    simp only [List.nil_append, Reaches]
  have read : tree.read? [] place.text = some text ↔ tree.read [] place.text = .ok text := by
    rw [read?]
    cases tree.read [] place.text <;> simp [Except.toOption]
  rw [read, FileTree.read, Walk.bind_eq_ok]
  simp only [walk]
  constructor
  · rintro ⟨_, ⟨rfl, reaches⟩, found⟩
    refine ⟨reaches, ?_⟩
    split at found
    · rename_i stored
      rwa [← Except.ok.inj found]
    · exact nomatch found
    · exact nomatch found
  · rintro ⟨reaches, found⟩
    refine ⟨place, ⟨rfl, reaches⟩, ?_⟩
    rw [found]
    rfl

/-- A directory in a directory. -/
theorem IsDirectory.concat {name : String} (directory : tree.IsDirectory here)
    (found : tree.node? (here ++ [name]) = some .directory) :
    tree.IsDirectory (here ++ [name]) := by
  intro parent above
  rcases List.prefix_concat_iff.mp above with rfl | higher
  · exact found
  · exact directory parent higher

/-- A place is not above the directory that it is in. -/
theorem ne_concat_of_above {parent : AbsolutePath} (above : parent <+: here) (name : String) :
    parent ≠ here ++ [name] := by
  rintro rfl
  simpa using above.length_le

/-- What making the directories on the way to a place does: all of them are
there, and those that were missing are all that was made. Places that are not on
the way lead where they led before, so no file is lost. -/
structure MadeWay (before after : FileTree) (place : AbsolutePath) : Prop where
  directory : after.IsDirectory place
  free : ∀ parent, parent <+: place →
    before.node? parent = none ∨ before.node? parent = some .directory
  other : ∀ path, ¬ path <+: place → after.node? path = before.node? path

/-- The first directory on the way may be one that is made. -/
theorem MadeWay.of_put (missing : before.node? here = none) (inside : here <+: place)
    (way : MadeWay (before.put here .directory) after place) : MadeWay before after place := by
  refine ⟨way.directory, fun parent above => ?_, fun path outside => ?_⟩
  · by_cases same : parent = here
    · exact Or.inl (same ▸ missing)
    · rw [← node?_put_of_ne before same .directory]
      exact way.free parent above
  · rw [way.other path outside, node?_put_of_ne]
    rintro rfl
    exact outside inside

/-- Nothing is made below a file. -/
theorem exists_makeDirectories_eq_error {content : String}
    (file : tree.node? here = some (.file content)) (names : List String) :
    ∃ fault, tree.makeDirectories here names = (tree, .error fault) := by
  cases names with
  | nil => exact ⟨.alreadyThere, by rw [makeDirectories, file]⟩
  | cons name rest => exact ⟨.notDirectory, by rw [makeDirectories, file]⟩

/-- A directory stays one when another is put into it. -/
theorem IsDirectory.put {name : String} (directory : tree.IsDirectory here) :
    (tree.put (here ++ [name]) .directory).IsDirectory (here ++ [name]) := by
  have kept : (tree.put (here ++ [name]) .directory).IsDirectory here := by
    intro parent above
    rw [node?_put_of_ne tree (ne_concat_of_above above name), directory parent above]
  exact kept.concat (node?_put_self tree (List.concat_ne_nil name here) .directory)

/-- Making directories leads to the last of them. Where it starts is a directory
already, and the names lead down.

Proof: by induction on the names. A directory that is there is entered; one that
is missing is put into the tree first, and then the way from there is the way in
the changed tree, which `of_put` takes back to the tree before. A file on the
way is excluded by success. -/
theorem madeWay_of_makeDirectories (down : ∀ name ∈ names, AbsolutePath.IsDown name)
    (directory : tree.IsDirectory here)
    (success : tree.makeDirectories here names = (after, .ok there)) :
    there = here ++ names ∧ MadeWay tree after (here ++ names) := by
  induction names generalizing tree here with
  | nil =>
    rw [makeDirectories, directory here (List.prefix_refl here)] at success
    obtain ⟨rfl, reached⟩ := Prod.mk.inj success
    rw [List.append_nil]
    exact ⟨(Except.ok.inj reached).symm, directory,
      fun parent above => Or.inr (directory parent above), fun _ _ => rfl⟩
  | cons name rest inductionHypothesis =>
    have further : ∀ other ∈ rest, AbsolutePath.IsDown other := fun other member =>
      down other (List.mem_cons_of_mem name member)
    simp only [makeDirectories, directory here (List.prefix_refl here),
      AbsolutePath.step_eq (down name List.mem_cons_self)] at success
    rw [List.append_cons]
    -- A directory that is there is gone through, one that is missing is made first: either way
    -- the rest of the names starts at a directory.
    split at success
    · rename_i node found
      cases node with
      | file content =>
        obtain ⟨fault, failure⟩ := exists_makeDirectories_eq_error found rest
        rw [failure] at success
        exact nomatch (Prod.mk.inj success).2
      | directory => exact inductionHypothesis further (directory.concat found) success
    · rename_i missing
      obtain ⟨reached, way⟩ := inductionHypothesis further directory.put success
      exact ⟨reached, way.of_put missing (List.prefix_append (here ++ [name]) rest)⟩

/-- What writing a file at a place does: the file is there, everything above it
is a directory, and what was missing above it is all that was made besides. A
file that was there is replaced; a directory that was there would have made the
writing fail. -/
structure Wrote (before after : FileTree) (place : AbsolutePath) (text : String) : Prop where
  file : after.node? place = some (.file text)
  reaches : after.Reaches place
  /-- Above the place nothing was there but directories. -/
  free : ∀ parent, parent <+: place → parent ≠ place →
    before.node? parent = none ∨ before.node? parent = some .directory
  notDirectory : before.node? place ≠ some .directory
  other : ∀ path, ¬ path <+: place → after.node? path = before.node? path

/-- Writing at a normal path that succeeds made the directories above it and then
put the file there. In between there was no directory in its place; a file that
was there is replaced. -/
theorem exists_of_write_eq_ok {name : String} (normal : (here ++ [name]).Normal)
    (success : tree.write [] (AbsolutePath.text (here ++ [name])) text = (after, .ok ())) :
    ∃ opened there, tree.makeDirectories [] here = (opened, .ok there) ∧
      opened.node? (there ++ [name]) ≠ some .directory ∧
      after = opened.put (there ++ [name]) (.file text) := by
  have down : AbsolutePath.IsDown name :=
    normal name (List.mem_append_right here List.mem_cons_self)
  have names : Path.split (AbsolutePath.text (here ++ [name])) = ("" :: here) ++ [name] :=
    AbsolutePath.split_text normal (List.concat_ne_nil name here)
  have bare : ((("" :: here) ++ [name]).reverse.dropWhile (· == "")).reverse =
      ("" :: here) ++ [name] := by
    rw [List.reverse_append, List.reverse_singleton, List.singleton_append,
      List.dropWhile_cons_of_neg (by simpa using down.ne_empty)]
    simp
  have top : tree.makeDirectories [] ("" :: here) = tree.makeDirectories [] here := by
    simp only [makeDirectories, node?_top]
    rfl
  simp only [write, names, bare, AbsolutePath.base_text, List.dropLast_concat, top,
    AbsolutePath.text_ne_empty, if_false, lt_irrefl, List.getLastD_concat,
    AbsolutePath.step_eq down] at success
  split at success
  · exact nomatch (Prod.mk.inj success).2
  · rename_i opened there made
    split at success
    · exact nomatch (Prod.mk.inj success).2
    · rename_i notDirectory
      exact ⟨opened, there, made, notDirectory, (Prod.mk.inj success).1.symm⟩

/-- No file is written at the top. -/
theorem write_text_top (tree : FileTree) (text : String) :
    tree.write [] (AbsolutePath.text []) text = (tree, .error .isDirectory) := by
  have names : Path.split (AbsolutePath.text []) = ["", ""] := rfl
  have bare : ((["", ""] : List String).reverse.dropWhile (· == "")).reverse = [] := rfl
  have stays : tree.makeDirectories [] [] = (tree, .ok []) := by
    rw [makeDirectories, node?_top]
  simp only [write, names, bare, AbsolutePath.base_text, List.dropLast_nil, stays,
    AbsolutePath.text_ne_empty, if_false]
  rfl

/-- Putting a file into a directory to which the way was made is writing it. -/
theorem MadeWay.wrote_put {name : String} (way : MadeWay before after here)
    (notDirectory : after.node? (here ++ [name]) ≠ some .directory) (text : String) :
    Wrote before (after.put (here ++ [name]) (.file text)) (here ++ [name]) text := by
  refine ⟨node?_put_self after (List.concat_ne_nil name here) _, ?_, ?_, ?_, ?_⟩
  · rw [reaches_concat_iff]
    intro parent above
    rw [node?_put_of_ne after (ne_concat_of_above above name), way.directory parent above]
  · intro parent above proper
    exact way.free parent ((List.prefix_concat_iff.mp above).resolve_left proper)
  · rwa [← way.other]
    exact fun above => ne_concat_of_above above name rfl
  · intro path outside
    have inHere (above : path <+: here) : path <+: here ++ [name] :=
      above.trans (List.prefix_append here [name])
    rw [node?_put_of_ne, way.other path fun above => outside (inHere above)]
    rintro rfl
    exact outside (List.prefix_refl _)

/-- Writing at a normal path puts a file there, if it succeeds. The path is
absolute in its written form, so the directory that it is read from does not
matter. -/
theorem wrote_of_write (normal : place.Normal)
    (success : tree.write [] place.text text = (after, .ok ())) : Wrote tree after place text := by
  rcases List.eq_nil_or_concat' place with rfl | ⟨here, name, rfl⟩
  · rw [write_text_top] at success
    exact nomatch (Prod.mk.inj success).2
  · have down : ∀ other ∈ here, AbsolutePath.IsDown other := fun other member =>
      normal other (List.mem_append_left [name] member)
    obtain ⟨opened, there, made, notDirectory, rfl⟩ := exists_of_write_eq_ok normal success
    obtain ⟨rfl, way⟩ := madeWay_of_makeDirectories down tree.isDirectory_top made
    exact way.wrote_put notDirectory text

/-- The file that was written is read back. -/
theorem Wrote.read?_text (wrote : Wrote before after place text) (normal : place.Normal) :
    after.read? [] place.text = some text :=
  (read?_text_eq_some_iff normal).mpr ⟨wrote.reaches, wrote.file⟩

end FileTree
end SourceMap

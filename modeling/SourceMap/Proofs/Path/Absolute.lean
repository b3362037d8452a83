import Mathlib
import SourceMap.Path.Absolute
import SourceMap.Proofs.Separators

/-!
# Normal paths

A normal path goes down only: it holds neither empty names nor `.` or `..`, and no
name in it contains a slash. Resolving leads to a normal path, and the written
form of a normal path is split into its names again, behind the empty name that
stands before the first slash.

So a path that was resolved may be written and resolved again, from any directory,
and is the same. The operations on a file tree take written paths; with these
lemmas they are read as walks along the names of the resolved path. The directory
that a path is resolved against has to be normal itself, which the top is.
-/

namespace SourceMap

/-- No slash is in a name of a written path. -/
theorem Path.slash_not_mem_of_mem_split {path name : String} (member : name ∈ split path) :
    '/' ∉ name.toList := by
  obtain ⟨chars, inside, rfl⟩ := List.mem_map.mp member
  rw [String.toList_ofList]
  exact not_mem_of_mem_splitOn inside

/-- Joined names without slashes are split into these names. -/
theorem Path.split_join {names : List String} (some : names ≠ [])
    (each : ∀ name ∈ names, '/' ∉ name.toList) : split (join names) = names := by
  have parts : ([('/')].intercalate (names.map String.toList)).splitOn '/' =
      names.map String.toList := by
    refine List.splitOn_intercalate '/' ?_ (by simpa using some)
    intro chars member
    obtain ⟨name, inside, rfl⟩ := List.mem_map.mp member
    exact each name inside
  rw [split, join, String.toList_ofList, parts, List.map_map]
  simp [Function.comp_def]

/-- A slash ends the empty name. -/
theorem Path.split_slash_append (path : String) : split ("/" ++ path) = "" :: split path := by
  have chars : ("/" ++ path).toList = '/' :: path.toList := by
    rw [String.toList_append]
    rfl
  rw [split, chars, List.splitOn_cons_eq_if_modifyHead, if_pos (beq_self_eq_true '/')]
  rfl

namespace AbsolutePath

/-- Whether a name leads one step down. -/
structure IsDown (name : String) : Prop where
  ne_empty : name ≠ ""
  ne_here : name ≠ "."
  ne_up : name ≠ ".."
  noSlash : '/' ∉ name.toList

/-- A path of names that lead down. -/
def Normal (path : AbsolutePath) : Prop := ∀ name ∈ path, IsDown name

/-- A name that leads down is appended. -/
theorem step_eq {name : String} (down : IsDown name) (here : AbsolutePath) :
    here.step name = here ++ [name] := by
  rw [step, if_neg (not_or.mpr ⟨down.ne_empty, down.ne_here⟩), if_neg down.ne_up]

/-- One step from a normal path leads to a normal path. -/
theorem Normal.step {here : AbsolutePath} (normal : here.Normal) {name : String}
    (noSlash : '/' ∉ name.toList) : (here.step name).Normal := by
  intro other member
  unfold AbsolutePath.step at member
  split at member
  · exact normal other member
  · rename_i stays
    split at member
    · exact normal other (List.mem_of_mem_dropLast member)
    · rename_i up
      rcases List.mem_append.mp member with before | last
      · exact normal other before
      · obtain rfl := List.mem_singleton.mp last
        exact ⟨(not_or.mp stays).1, (not_or.mp stays).2, up, noSlash⟩

/-- Resolving against a normal path leads to a normal path. The written path may
be anything, absolute or not: no name between slashes contains a slash, and one
step from a normal path leads to a normal path. -/
theorem Normal.resolve {directory : AbsolutePath} (normal : directory.Normal) (path : String) :
    (AbsolutePath.resolve directory path).Normal := by
  have start : (base directory path).Normal := by
    unfold base
    split
    · exact fun _ member => nomatch member
    · exact normal
  rw [AbsolutePath.resolve]
  refine List.foldlRecOn (Path.split path) AbsolutePath.step start ?_
  intro here isNormal name member
  exact isNormal.step (Path.slash_not_mem_of_mem_split member)

/-- The written form of a path is absolute. -/
theorem isAbsolute_text (path : AbsolutePath) : Path.isAbsolute path.text = true := by
  rw [Path.isAbsolute, text, String.toList_append]
  rfl

/-- The written form of a path is not empty. -/
theorem text_ne_empty (path : AbsolutePath) : path.text ≠ "" := by
  intro empty
  have absolute := isAbsolute_text path
  rw [empty] at absolute
  exact absurd absolute (by decide)

/-- The written form of a path starts at the top. -/
theorem base_text (directory path : AbsolutePath) : base directory path.text = [] := by
  rw [base, if_pos (isAbsolute_text path)]

/-- The written form of a normal path is split into its names. -/
theorem split_text {path : AbsolutePath} (normal : path.Normal) (below : path ≠ []) :
    Path.split path.text = "" :: path := by
  rw [text, Path.split_slash_append, Path.split_join below fun name member =>
    (normal name member).noSlash]

end AbsolutePath
end SourceMap

import SourceMap.Path.SourceNaming
import SourceMap.Proofs.Path.Absolute

/-!
# Relative paths lead back

A path is brought into its normal form by leaving out empty names and `.` and by
letting each `..` cancel an ordinary name before it. The directory of a file
followed by the relative path to a target has the normal form of the target: the
relative path goes up along the names that the directory does not share with the
target, which cancels just these, and then down along what is left of the target.
So a source that is named relative to where the output goes still denotes the same
path, and it is told apart from all sources that denote another one.
-/

namespace SourceMap
namespace Path

/-- A name that leads down: not empty, neither `.` nor `..`. -/
@[mk_iff] structure IsOrdinary (name : String) : Prop where
  ne_empty : name ≠ ""
  ne_here : name ≠ "."
  ne_up : name ≠ ".."

instance (name : String) : Decidable (IsOrdinary name) :=
  decidable_of_iff _ (isOrdinary_iff name).symm

/-- The next name of a path in normal form: the empty name and `.` are left out,
and `..` cancels an ordinary name right before it. -/
def normalStep (names : List String) (name : String) : List String :=
  if name = "" ∨ name = "." then names
  else if name = ".." ∧ names.getLast?.any (fun last => decide (IsOrdinary last)) = true then
    names.dropLast
  else names ++ [name]

/-- The names of a path in normal form. -/
def normalize (path : String) : List String := (split path).foldl normalStep []

/-- The names of the directories that a file is in. -/
def directories (file : String) : List String := (split file).dropLast

/-- The directory of a file. -/
def directory (file : String) : String := join (directories file)

/-- An ordinary name is appended. -/
theorem normalStep_eq {name : String} (ordinary : IsOrdinary name) (names : List String) :
    normalStep names name = names ++ [name] := by
  rw [normalStep, if_neg (not_or.mpr ⟨ordinary.ne_empty, ordinary.ne_here⟩),
    if_neg fun up => ordinary.ne_up up.1]

/-- Going up cancels an ordinary name. -/
theorem normalStep_up {name : String} (ordinary : IsOrdinary name) (names : List String) :
    normalStep (names ++ [name]) ".." = names := by
  simp [normalStep, ordinary]

/-- Ordinary names are appended. -/
theorem foldl_normalStep_of_ordinary {names : List String}
    (ordinary : ∀ name ∈ names, IsOrdinary name) (start : List String) :
    names.foldl normalStep start = start ++ names := by
  induction names generalizing start with
  | nil => simp
  | cons name rest inductionHypothesis =>
    have later := inductionHypothesis fun other member =>
      ordinary other (List.mem_cons_of_mem name member)
    rw [List.foldl_cons, normalStep_eq (ordinary name List.mem_cons_self), later,
      List.append_assoc, List.singleton_append]

/-- Going up as often as there are ordinary names cancels these names. -/
theorem foldl_normalStep_up {names : List String} (ordinary : ∀ name ∈ names, IsOrdinary name)
    (start : List String) :
    (List.replicate names.length "..").foldl normalStep (start ++ names) = start := by
  induction names using List.reverseRecOn with
  | nil => simp
  | append_singleton before last inductionHypothesis =>
    have earlier := inductionHypothesis fun name member =>
      ordinary name (List.mem_append_left [last] member)
    rw [List.length_append, List.length_singleton, List.replicate_succ, List.foldl_cons,
      ← List.append_assoc, normalStep_up (ordinary last (by simp)), earlier]

/-- The names of a written path are joined to the path again. -/
theorem join_split (path : String) : join (split path) = path := by
  have chars : (split path).map String.toList = path.toList.splitOn '/' := by
    rw [split, List.map_map]
    simp [Function.comp_def]
  rw [join, chars, List.intercalate_splitOn, String.ofList_toList]

/-- A slash between two paths separates their names. -/
theorem split_append_slash (left right : String) :
    split (left ++ "/" ++ right) = split left ++ split right := by
  have chars : (left ++ "/" ++ right).toList = left.toList ++ '/' :: right.toList := by
    simp [String.toList_append]
  rw [split, chars, List.splitOn_append_cons_self, List.map_append, split, split]

/-- Names without slashes that are joined and split again have the same normal
form. Only if there are none, an empty name is added, and that one is left out
of the normal form. -/
theorem foldl_normalStep_split_join {names : List String}
    (noSlash : ∀ name ∈ names, '/' ∉ name.toList) (start : List String) :
    (split (join names)).foldl normalStep start = names.foldl normalStep start := by
  by_cases nothing : names = []
  · rw [nothing]
    rfl
  · rw [split_join nothing noSlash]

/-- The normal form of a path goes on from that of its beginning. -/
theorem normalize_append_slash (left right : String) :
    normalize (left ++ "/" ++ right) = (split right).foldl normalStep (normalize left) := by
  rw [normalize, split_append_slash, List.foldl_append, normalize]

/-- The directory of a file in ordinary directories is in normal form. -/
theorem normalize_directory {file : String}
    (ordinary : ∀ name ∈ directories file, IsOrdinary name) :
    normalize (directory file) = directories file := by
  have noSlash : ∀ name ∈ directories file, '/' ∉ name.toList := fun name member =>
    slash_not_mem_of_mem_split (List.mem_of_mem_dropLast member)
  rw [normalize, directory, foldl_normalStep_split_join noSlash,
    foldl_normalStep_of_ordinary ordinary, List.nil_append]

/-- What is dropped from two lists of names is their longest common start.

Proof: by induction along the two lists. Equal heads belong to the common start
of the whole lists and to every longer candidate; at the first difference, and
at the end of a list, no candidate has a name more. -/
theorem exists_common_dropCommon (left right : List String) :
    ∃ common, left = common ++ (dropCommon left right).1 ∧
      right = common ++ (dropCommon left right).2 ∧
      ∀ start, start <+: left → start <+: right → start <+: common := by
  fun_induction dropCommon left right with
  | case1 left name right inductionHypothesis =>
    obtain ⟨common, leftSplit, rightSplit, longest⟩ := inductionHypothesis
    refine ⟨name :: common, congrArg (name :: ·) leftSplit, congrArg (name :: ·) rightSplit, ?_⟩
    intro start here there
    cases start with
    | nil => exact List.nil_prefix
    | cons first rest =>
      rw [List.cons_prefix_cons] at here there ⊢
      exact ⟨here.1, longest rest here.2 there.2⟩
  | case2 first left second right different =>
    refine ⟨[], rfl, rfl, fun start here there => ?_⟩
    cases start with
    | nil => exact List.nil_prefix
    | cons name rest =>
      rw [List.cons_prefix_cons] at here there
      exact absurd (here.1.symm.trans there.1) different
  | case3 left right ended =>
    refine ⟨[], rfl, rfl, fun start here there => ?_⟩
    cases start with
    | nil => exact List.nil_prefix
    | cons name rest =>
      obtain ⟨leftRest, rfl⟩ := here
      obtain ⟨rightRest, rfl⟩ := there
      exact (ended name _ name _ rfl rfl).elim

/-- The relative path to a target goes up once for each directory that is not in
the longest common start of the directories and the target, and then down along
the rest of the target. -/
theorem exists_relative_eq (source target : String) :
    ∃ common up down, directories source = common ++ up ∧ split target = common ++ down ∧
      (∀ start, start <+: directories source → start <+: split target → start <+: common) ∧
      relative source target = join (List.replicate up.length ".." ++ down) := by
  obtain ⟨common, upSplit, downSplit, longest⟩ :=
    exists_common_dropCommon (directories source) (split target)
  exact ⟨common, _, _, upSplit, downSplit, longest, rfl⟩

example : relative "out/js/maps/app.js.map" "out/js/../lib/core.src" = "../../lib/core.src" := by
  decide +kernel

/-- The directory of a file in ordinary directories and the relative path to a
target have the normal form of the target together. The names of the directories
must be ordinary; those of the target may be anything.

Proof: the directories are the common start and some further names. After both
of them the relative path goes up once for each further name, which cancels just
these since they are ordinary; what is left is the common start, and the rest of
the target follows it as in the target. -/
theorem normalize_directory_relative {source : String}
    (ordinary : ∀ name ∈ directories source, IsOrdinary name) (target : String) :
    normalize (directory source ++ "/" ++ relative source target) = normalize target := by
  obtain ⟨common, up, down, upSplit, downSplit, _, written⟩ := exists_relative_eq source target
  have ordinaryCommon : ∀ name ∈ common, IsOrdinary name := fun name member =>
    ordinary name (upSplit ▸ List.mem_append_left up member)
  have ordinaryUp : ∀ name ∈ up, IsOrdinary name := fun name member =>
    ordinary name (upSplit ▸ List.mem_append_right common member)
  have noSlash : ∀ name ∈ List.replicate up.length ".." ++ down, '/' ∉ name.toList := by
    intro name member
    rcases List.mem_append.mp member with goesUp | goesDown
    · rw [List.eq_of_mem_replicate goesUp]
      decide
    · exact slash_not_mem_of_mem_split (downSplit ▸ List.mem_append_right common goesDown)
  calc normalize (directory source ++ "/" ++ relative source target)
      = (List.replicate up.length ".." ++ down).foldl normalStep (common ++ up) := by
        rw [normalize_append_slash, normalize_directory ordinary, written,
          foldl_normalStep_split_join noSlash, upSplit]
    _ = down.foldl normalStep common := by
        rw [List.foldl_append, foldl_normalStep_up ordinaryUp]
    _ = (common ++ down).foldl normalStep [] := by
        rw [List.foldl_append, foldl_normalStep_of_ordinary ordinaryCommon, List.nil_append]
    _ = normalize target := by rw [normalize, downSplit]

end Path

namespace OutputPlace

/-- No entry of an archive is found in a path without the separator. -/
theorem archiveEntry?_eq_none_iff (chars : List Char) :
    archiveEntry? chars = none ↔ ¬['!', '/'] <:+: chars := by
  fun_induction archiveEntry? chars with
  | case1 rest =>
    have found : ['!', '/'] <:+: '!' :: '/' :: rest := ⟨[], rest, rfl⟩
    simp [found]
  | case2 char rest noSeparator inductionHypothesis =>
    have notHere : ¬['!', '/'] <+: char :: rest := by
      rintro ⟨after, same⟩
      obtain ⟨rfl, rfl⟩ := List.cons.inj same
      exact noSeparator after rfl rfl
    rw [inductionHypothesis, List.infix_cons_iff, or_iff_right notHere]
  | case3 => simp

/-- Whether a place has one path: a directory, or a base in its stead. -/
def IsAt (place : OutputPlace) (path : String) : Prop :=
  place.directory = some path ∧ place.base = none ∨
    place.directory = none ∧ place.base = some path

/-- Whether a place names a source by its relative path: the source is not
absolute, it is no entry of an archive, and no path is found for it. -/
structure Relativizes (place : OutputPlace) (source : String) : Prop where
  notAbsolute : Path.isAbsolute source = false
  noArchive : ¬['!', '/'] <:+: source.toList
  notFound : place.find? source = none

variable {place : OutputPlace} {path source : String}

/-- A source that is named by its relative path gets the path of the place in
front of it. -/
theorem Relativizes.rename_eq (relativizes : place.Relativizes source) (single : place.IsAt path) :
    place.rename source = path ++ "/" ++ Path.relative (path ++ "/") source := by
  have noEntry := (archiveEntry?_eq_none_iff source.toList).mpr relativizes.noArchive
  rcases single with ⟨directory, base⟩ | ⟨directory, base⟩ <;>
    simp [rename, directory, base, noEntry, relativizes.notFound, relativizes.notAbsolute]

/-- A source that is named by its relative path keeps its normal form. -/
theorem Relativizes.normalize_rename (relativizes : place.Relativizes source)
    (single : place.IsAt path) (ordinary : ∀ name ∈ Path.split path, Path.IsOrdinary name) :
    Path.normalize (place.rename source) = Path.normalize source := by
  have names : Path.directories (path ++ "/") = Path.split path := by
    have split := Path.split_append_slash path ""
    rw [String.append_empty] at split
    rw [Path.directories, split]
    exact List.dropLast_concat
  have directory : Path.directory (path ++ "/") = path := by
    rw [Path.directory, names, Path.join_split]
  have back := Path.normalize_directory_relative (names.symm ▸ ordinary) source
  rwa [directory, ← relativizes.rename_eq single] at back

end OutputPlace

/-- Relative paths lead back to their targets. For every file whose directories
have ordinary names and every target, the directory of the file, a slash and the
relative path to the target have the normal form of the target, and the relative
path is made of one `..` for each directory beyond the longest common start of
the directories and the target, followed by the rest of the target. So a place
with one path, whose names are ordinary, changes no normal form of the sources
that it names by their relative paths, and it names two of them alike only if
they have the same normal form.

Which sources those are is part of the statement: not absolute, no entry of an
archive, and without a path that is found for them. The last condition excludes
a source of the name of a member that every record has, even where no path is
known at all. -/
theorem Path.relative_leads_back (place : OutputPlace) (path : String) :
    (∀ source target, (∀ name ∈ directories source, IsOrdinary name) →
      normalize (directory source ++ "/" ++ relative source target) = normalize target ∧
        ∃ common up down, directories source = common ++ up ∧ split target = common ++ down ∧
          (∀ start, start <+: directories source → start <+: split target → start <+: common) ∧
          relative source target = join (List.replicate up.length ".." ++ down)) ∧
      (place.IsAt path → (∀ name ∈ split path, IsOrdinary name) →
        (∀ source, place.Relativizes source →
          normalize (place.rename source) = normalize source) ∧
        ∀ source other, place.Relativizes source → place.Relativizes other →
          normalize source ≠ normalize other → place.rename source ≠ place.rename other) := by
  refine ⟨fun source target ordinary => ?_, fun single ordinary => ⟨?_, ?_⟩⟩
  · exact ⟨normalize_directory_relative ordinary target, exists_relative_eq source target⟩
  · intro source relativizes
    exact relativizes.normalize_rename single ordinary
  · intro source other relativizes otherRelativizes different alike
    apply different
    rw [← relativizes.normalize_rename single ordinary, alike,
      otherRelativizes.normalize_rename single ordinary]

/-- A target with `..` of its own, below a directory that it shares; and two
sources of a place, one of which leaves the directory of the place and the other
one does not. -/
theorem Path.relative_leads_back_shared :
    let place : OutputPlace := ⟨none, some "out/maps", []⟩
    normalize (directory "out/js/maps/app.js.map" ++ "/" ++
        relative "out/js/maps/app.js.map" "out/js/../lib/./core.src") =
      ["out", "lib", "core.src"] ∧
      normalize (place.rename "out/../src/a.src") = ["src", "a.src"] ∧
      place.rename "out/../src/a.src" ≠ place.rename "out/maps/a.src" := by
  intro place
  obtain ⟨paths, names⟩ := relative_leads_back place "out/maps"
  obtain ⟨back, _⟩ := paths "out/js/maps/app.js.map" "out/js/../lib/./core.src" (by decide +kernel)
  obtain ⟨kept, apart⟩ := names (Or.inr ⟨rfl, rfl⟩) (by decide +kernel)
  have outside : place.Relativizes "out/../src/a.src" :=
    ⟨by decide +kernel, by decide +kernel, rfl⟩
  have inside : place.Relativizes "out/maps/a.src" :=
    ⟨by decide +kernel, by decide +kernel, rfl⟩
  refine ⟨?_, ?_, apart _ _ outside inside (by decide +kernel)⟩
  · rw [back]
    decide +kernel
  · rw [kept _ outside]
    decide +kernel

/-- Where no path is known, one is found all the same for a source of the name
of a member that every record has. It gets another normal form, and it is named
like a source of that form; so without the condition on what is found the law
would fail on both counts. -/
theorem Path.relative_misled :
    let place : OutputPlace := ⟨some "dist", none, []⟩
    isAbsolute "__proto__" = false ∧ ¬['!', '/'] <:+: "__proto__".toList ∧
      normalize (place.rename "__proto__") ≠ normalize "__proto__" ∧
      place.rename "__proto__" = place.rename "dist/[object Object]" ∧
      normalize "__proto__" ≠ normalize "dist/[object Object]" := by
  decide +kernel

end SourceMap

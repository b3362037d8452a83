import SourceMap.LookupTable
import SourceMap.Mappings.Writer
import SourceMap.Proofs.Distinct
import SourceMap.Proofs.Number.Order
import SourceMap.Proofs.StableSort

/-!
# What is collected to be written

Collecting makes lines as they are needed, numbers names as they come and puts
each segment at the end of its line. The names of the segments so far are
therefore numbered by a table that still grows. Since a name never changes its
place in that table, nothing that was collected has to be looked at again: after
every placement, each line holds the segments of its placements in their order,
under the names so far.

So the lines are known without the loop that makes them. There are as many as the
last placement needs, each is a selection of the placements, and the table holds
each name once, in the order of first use.
-/

namespace SourceMap
namespace Mappings

/-- The names in use, each once, in the order of their first use. -/
def nameTable (placements : List Placement) : List String :=
  (placements.filterMap Placement.name).eraseDups

/-- The segment of a placement under a table of names. -/
def segmentOf (names : List String) (placement : Placement) : Segment where
  generatedColumn := .ofNat placement.generatedColumn
  sourceIndex := .ofNat placement.source
  originalLine := .ofNat placement.originalLine
  originalColumn := .ofNat placement.originalColumn
  nameIndex := placement.name.map fun name => .ofNat (names.idxOf name)

/-- The placements of one generated line, by generated column. -/
def onLine (placements : List Placement) (line : Nat) : List Placement :=
  (placements.filter fun placement => placement.generatedLine == line).mergeSort
    fun left right => decide (left.generatedColumn ≤ right.generatedColumn)

/-- How many generated lines there are up to the last one with a placement. -/
def lineCount (placements : List Placement) : Nat :=
  placements.foldl (fun count placement => max count (placement.generatedLine + 1)) 0

/-- The placements of an index in the lines that are written. -/
def rows (placements : List Placement) : List (List Placement) :=
  (List.range (lineCount placements)).map (onLine placements)

/-- One more placement may need more lines. -/
theorem lineCount_concat (placements : List Placement) (placement : Placement) :
    lineCount (placements ++ [placement]) =
      max (lineCount placements) (placement.generatedLine + 1) := by
  simp [lineCount, List.foldl_append]

/-- One more placement may add its name to the table. -/
theorem nameTable_concat (placements : List Placement) (placement : Placement) :
    nameTable (placements ++ [placement]) =
      nameTable placements ++
        placement.name.toList.filter fun name => name ∉ nameTable placements := by
  cases named : placement.name with
  | none => simp [nameTable, List.filterMap_append, named]
  | some name =>
    have last : (placements ++ [placement]).filterMap Placement.name =
        placements.filterMap Placement.name ++ [name] := by
      simp [List.filterMap_append, named]
    rw [nameTable, last, eraseDups_concat]
    simp only [nameTable, List.mem_eraseDups, Option.toList_some, List.filter_singleton]
    split <;> rename_i known <;> simp only [known, not_true_eq_false, not_false_eq_true,
      decide_true, decide_false, cond_true, cond_false, List.append_nil]

/-- A segment stays the same when names are added behind those of the table. -/
theorem segmentOf_append {names : List String} {placement : Placement}
    (known : ∀ name, placement.name = some name → name ∈ names) (more : List String) :
    segmentOf (names ++ more) placement = segmentOf names placement := by
  cases named : placement.name with
  | none => simp [segmentOf, named]
  | some name => simp [segmentOf, named, List.idxOf_append_of_mem (known name named)]

/-- The name of a placement is in the table. -/
theorem mem_nameTable {placements : List Placement} {placement : Placement}
    (member : placement ∈ placements) {name : String} (named : placement.name = some name) :
    name ∈ nameTable placements := by
  rw [nameTable, List.mem_eraseDups]
  exact List.mem_filterMap.mpr ⟨placement, member, named⟩

namespace Collected

/-- Growing makes just the lines up to the given one. -/
@[simp] theorem size_grow (lines : Array (Array Segment)) (line : Nat) :
    (grow lines line).size = max lines.size (line + 1) := by
  fun_induction grow lines line with
  | case1 lines short inductionHypothesis =>
    rw [inductionHypothesis, Array.size_push]
    omega
  | case2 lines reached => omega

/-- The lines that growing makes are empty. -/
@[simp] theorem getD_getElem?_grow (lines : Array (Array Segment)) (line place : Nat) :
    (grow lines line)[place]?.getD #[] = lines[place]?.getD #[] := by
  fun_induction grow lines line with
  | case1 lines short inductionHypothesis =>
    rw [inductionHypothesis, Array.getElem?_push]
    by_cases last : place = lines.size <;> simp [last]
  | case2 lines reached => rfl

/-- A segment that is put on a line after growing is behind those of the line
before. -/
theorem getD_getElem?_modify_grow (lines : Array (Array Segment)) (line place : Nat)
    (segment : Segment) :
    (((grow lines line).modify line (·.push segment))[place]?.getD #[]).toList =
      (lines[place]?.getD #[]).toList ++ if line = place then [segment] else [] := by
  rw [Array.getElem?_modify, ← getD_getElem?_grow lines line]
  by_cases here : line = place
  · subst here
    simp
  · simp [here]

/-- A name finds its place among the numbered names. -/
theorem lookup_zipIdx (names : List String) (start : Nat) (name : String) :
    (names.zipIdx start).lookup name =
      if name ∈ names then some (start + names.idxOf name) else none := by
  induction names generalizing start with
  | nil => rfl
  | cons first rest inductionHypothesis =>
    rw [List.zipIdx_cons, Entries.lookup_cons, inductionHypothesis]
    by_cases same : name = first
    · simp [same]
    · have later : List.idxOf name (first :: rest) = List.idxOf name rest + 1 :=
        List.idxOf_cons_ne _ (Ne.symm same)
      simp [same, later, Nat.add_comm, Nat.add_left_comm]

/-- A name gets its place in the table, to which it is added if it is new. -/
theorem nameIndex_zipIdx (names : List String) (given : Option String) :
    nameIndex names.zipIdx given =
      let table := names ++ given.toList.filter fun name => name ∉ names
      (given.map table.idxOf, table.zipIdx) := by
  cases given with
  | none => simp [nameIndex]
  | some name =>
    by_cases known : name ∈ names
    · simp [nameIndex, number, lookup_zipIdx, known]
    · simp [nameIndex, number, lookup_zipIdx, known, List.idxOf_append_of_notMem known,
        List.zipIdx_append]

end Collected

/-- What has been collected of placements: the names are numbered by their
table, there are the lines that the placements need, and each line holds the
segments of its placements. -/
structure CollectedFor (placements : List Placement) (collected : Collected) : Prop where
  numbers : collected.numbers = (nameTable placements).zipIdx
  size : collected.lines.size = lineCount placements
  line : ∀ line, (collected.lines[line]?.getD #[]).toList =
    (placements.filter fun placement => placement.generatedLine == line).map
      (segmentOf (nameTable placements))

namespace CollectedFor

variable {placements : List Placement} {collected : Collected}

/-- At the start nothing has been collected. -/
theorem empty : CollectedFor [] {} where
  numbers := rfl
  size := rfl
  line _ := rfl

/-- Collecting a placement. Its name keeps or gets its place in the table; the
segments before stay what they are, since a table only grows at its end. -/
theorem add (holds : CollectedFor placements collected) (placement : Placement) :
    CollectedFor (placements ++ [placement]) (collected.add placement) := by
  have numbered := Collected.nameIndex_zipIdx (nameTable placements) placement.name
  rw [← nameTable_concat, ← holds.numbers] at numbered
  have earlier : ∀ line, (placements.filter fun other => other.generatedLine == line).map
      (segmentOf (nameTable (placements ++ [placement]))) =
        (placements.filter fun other => other.generatedLine == line).map
          (segmentOf (nameTable placements)) := by
    intro line
    apply List.map_congr_left
    intro other member
    rw [nameTable_concat]
    exact segmentOf_append (fun name => mem_nameTable (List.mem_of_mem_filter member)) _
  have lines : (collected.add placement).lines =
      (Collected.grow collected.lines placement.generatedLine).modify placement.generatedLine
        (·.push (segmentOf (nameTable (placements ++ [placement])) placement)) := by
    simp [Collected.add, numbered, segmentOf, Function.comp_def]
  constructor
  · simp [Collected.add, numbered]
  · rw [lines, Array.size_modify, Collected.size_grow, lineCount_concat, holds.size]
  · intro line
    rw [lines, Collected.getD_getElem?_modify_grow, holds.line, List.filter_append,
      List.map_append, earlier]
    by_cases here : placement.generatedLine = line <;> simp [here]

/-- Collecting placements after others. -/
theorem foldl_add (holds : CollectedFor placements collected) (more : List Placement) :
    CollectedFor (placements ++ more) (more.foldl Collected.add collected) := by
  induction more generalizing placements collected with
  | nil => simpa using holds
  | cons placement rest inductionHypothesis =>
    simpa using inductionHypothesis (holds.add placement)

end CollectedFor

/-- Whatever the placements are, they are all collected. -/
theorem collectedFor_collect (placements : List Placement) :
    CollectedFor placements (collect placements) :=
  CollectedFor.empty.foldl_add placements

/-- The names are collected in the order of first use. -/
theorem names_collect (placements : List Placement) :
    (collect placements).names = nameTable placements := by
  rw [Collected.names, (collectedFor_collect placements).numbers, List.zipIdx_map_fst]

/-- The segments of placements are sorted as the placements are. -/
theorem sortLine_eq (names : List String) (row : List Placement) {segments : Array Segment}
    (same : segments.toList = row.map (segmentOf names)) :
    sortLine segments = (sortBy Placement.generatedColumn row).map (segmentOf names) := by
  rw [sortLine, same]
  refine (List.map_mergeSort fun left _ right _ => ?_).symm
  simp only [segmentOf, Number.ofNat_eq_ofInt, Number.compare?_ofInt, compareOfLessAndEq]
  grind

/-- Once they are sorted, the lines that were collected are the rows of the
placements. -/
theorem map_sortLine_collect (placements : List Placement) :
    (collect placements).lines.toList.map sortLine =
      (rows placements).map fun row => row.map (segmentOf (nameTable placements)) := by
  have holds := collectedFor_collect placements
  apply List.ext_getElem
  · simp [holds.size, rows]
  · intro line reached _
    have inside : line < (collect placements).lines.size := by simpa using reached
    have segments := holds.line line
    rw [Array.getElem?_eq_getElem inside, Option.getD_some] at segments
    simp only [rows, List.getElem_map, List.getElem_range, Array.getElem_toList]
    exact sortLine_eq _ _ segments

/-- How an index is written, without the loop that collects its placements. -/
theorem write_eq_rows (index : OriginIndex) :
    write index = index.placements >>= fun placements =>
      (writeLines ((rows placements).map fun row => row.map (segmentOf (nameTable placements)))
          .start).map fun groups =>
        ⟨String.ofList ([';'].intercalate groups), index.sourceNames, nameTable placements⟩ := by
  unfold write
  simp only [map_sortLine_collect, names_collect]
  rfl

end Mappings
end SourceMap

import SourceMap.Proofs.Mappings.Collecting
import SourceMap.Proofs.OriginIndex.Placements

/-!
# The order of a mappings text

An index is in the order of origins, a mappings text in that of generated
positions. The writer puts placements on their generated lines and sorts each line
by column; line by line that is the list of all placements, sorted by generated
position. Placements of one position stay in the order of the index.

So sorting in two rounds is one stable sorting by a pair. It is shown by what
characterises one: the positions ascend, within a line by its sorting and from
line to line by their numbers, and the placements of any one position are selected
from one line, in the order of the index. The number of lines enters only in that
it reaches past every placement.
-/

namespace SourceMap

/-- The generated position of a target, lines before columns. What is no natural
number counts as zero here; only a target that cannot be written has such a
field. -/
def Target.position (target : Target) : Nat ×ₗ Nat :=
  toLex ((target.lineNumber?.bind Number.toNat?).getD 0,
    (target.columnNumber?.bind Number.toNat?).getD 0)

/-- A target is at the line and the column at which it is placed. -/
@[simp] theorem Target.position_placed (line column : Nat) (name : Option String) :
    (Target.placed (.ofNat line) (.ofNat column) name).position = toLex (line, column) := by
  simp [Target.position, Target.placed, Target.lineNumber?, Target.columnNumber?, Json.number?]

/-- The generated position of a mapping. -/
def Mapping.position (mapping : Mapping) : Nat ×ₗ Nat := mapping.target.position

/-- The generated position of a placement. -/
def Placement.position (placement : Placement) : Nat ×ₗ Nat :=
  toLex (placement.generatedLine, placement.generatedColumn)

/-- The mapping that a placement stands for has its generated position. -/
theorem Placement.position_mapping (names : List String) (placement : Placement) :
    (placement.mapping names).position = placement.position :=
  Target.position_placed _ _ _

namespace Mappings

/-- Counting lines from a number on reaches past it and past the lines of all
placements. -/
theorem lt_foldl_lineCount (placements : List Placement) (start : Nat) :
    start ≤ placements.foldl (fun count other => max count (other.generatedLine + 1)) start ∧
      ∀ placement ∈ placements, placement.generatedLine <
        placements.foldl (fun count other => max count (other.generatedLine + 1)) start := by
  induction placements generalizing start with
  | nil => simp
  | cons first rest inductionHypothesis =>
    obtain ⟨grown, reached⟩ := inductionHypothesis (max start (first.generatedLine + 1))
    constructor
    · exact le_trans (le_max_left _ _) grown
    · intro placement member
      rcases List.mem_cons.mp member with rfl | later
      · exact lt_of_lt_of_le (Nat.lt_of_succ_le (le_max_right start _)) grown
      · exact reached placement later

/-- Every placement is on one of the lines that are written. -/
theorem generatedLine_lt_lineCount {placements : List Placement} {placement : Placement}
    (member : placement ∈ placements) : placement.generatedLine < lineCount placements :=
  (lt_foldl_lineCount placements 0).2 placement member

/-- The placements of a line are on it. -/
theorem generatedLine_of_mem_onLine {placements : List Placement} {line : Nat}
    {placement : Placement} (member : placement ∈ onLine placements line) :
    placement ∈ placements ∧ placement.generatedLine = line := by
  have listed : placement ∈ placements.filter fun other => other.generatedLine == line :=
    List.mem_mergeSort.mp member
  simpa using listed

/-- A line holds the placements of each of its positions in the order of the
index. -/
theorem filter_position_onLine (placements : List Placement) (line column : Nat) :
    (onLine placements line).filter (·.position = toLex (line, column)) =
      placements.filter (·.position = toLex (line, column)) := by
  have byColumn : (onLine placements line).filter (·.position = toLex (line, column)) =
      (onLine placements line).filter (·.generatedColumn = column) := by
    apply List.filter_congr
    intro placement member
    simp [Placement.position, (generatedLine_of_mem_onLine member).2]
  rw [byColumn]
  apply (filter_key_sortBy Placement.generatedColumn _ column).trans
  rw [List.filter_filter]
  apply List.filter_congr
  intro placement _
  rw [Bool.eq_iff_iff]
  simp [Placement.position, and_comm]

/-- A line holds no placement of a position on another line. -/
theorem filter_position_onLine_of_ne {line other : Nat} (different : other ≠ line)
    (placements : List Placement) (column : Nat) :
    (onLine placements other).filter (·.position = toLex (line, column)) = [] := by
  rw [List.filter_eq_nil_iff]
  intro placement member
  simp [Placement.position, (generatedLine_of_mem_onLine member).2, different]

/-- Only one number of a range contributes. -/
theorem flatMap_range_if {α : Type} (count chosen : Nat) (elements : List α) :
    (List.range count).flatMap (fun number => if number = chosen then elements else []) =
      if chosen < count then elements else [] := by
  induction count with
  | zero => rfl
  | succ count inductionHypothesis =>
    rw [List.range_succ, List.flatMap_append, inductionHypothesis]
    by_cases here : count = chosen
    · simp [here]
    · have same : chosen < count + 1 ↔ chosen < count := by omega
      simp [here, same]

/-- Line by line the generated positions ascend. -/
theorem pairwise_flatMap_onLine (placements : List Placement) (count : Nat) :
    ((List.range count).flatMap (onLine placements)).Pairwise (·.position ≤ ·.position) := by
  rw [List.pairwise_flatMap]
  constructor
  · intro line _
    apply (pairwise_sortBy Placement.generatedColumn _).imp_of_mem
    intro left right leftMember rightMember ascending
    have leftListed : left ∈ onLine placements line := leftMember
    have rightListed : right ∈ onLine placements line := rightMember
    have leftLine := (generatedLine_of_mem_onLine leftListed).2
    have rightLine := (generatedLine_of_mem_onLine rightListed).2
    exact Prod.Lex.toLex_le_toLex.mpr (Or.inr ⟨leftLine.trans rightLine.symm, ascending⟩)
  · apply List.pairwise_lt_range.imp
    intro earlier later less left leftMember right rightMember
    have leftLine := (generatedLine_of_mem_onLine leftMember).2
    have rightLine := (generatedLine_of_mem_onLine rightMember).2
    exact Prod.Lex.toLex_le_toLex.mpr (Or.inl (by omega))

/-- Line by line the placements of each position come in the order of the index. -/
theorem filter_position_flatMap_onLine (placements : List Placement) (line column : Nat) :
    ((List.range (lineCount placements)).flatMap (onLine placements)).filter
        (·.position = toLex (line, column)) =
      placements.filter (·.position = toLex (line, column)) := by
  have each : ∀ other ∈ List.range (lineCount placements),
      (onLine placements other).filter (·.position = toLex (line, column)) =
        if other = line then placements.filter (·.position = toLex (line, column)) else [] := by
    intro other _
    by_cases same : other = line
    · subst same
      rw [if_pos rfl, filter_position_onLine]
    · rw [if_neg same, filter_position_onLine_of_ne same]
  rw [List.filter_flatMap, List.flatMap_congr each, flatMap_range_if]
  by_cases reached : line < lineCount placements
  · rw [if_pos reached]
  · rw [if_neg reached, eq_comm, List.filter_eq_nil_iff]
    intro placement member here
    obtain ⟨rfl, _⟩ : placement.generatedLine = line ∧ placement.generatedColumn = column := by
      simpa [Placement.position] using here
    exact reached (generatedLine_lt_lineCount member)

/-- The lines hold placements of the index. -/
theorem mem_of_mem_rows {placements row : List Placement} (listed : row ∈ rows placements)
    {placement : Placement} (member : placement ∈ row) : placement ∈ placements := by
  obtain ⟨line, _, rfl⟩ := List.mem_map.mp listed
  exact (generatedLine_of_mem_onLine member).1

/-- The lines are numbered by the generated lines of their placements. -/
theorem generatedLine_of_mem_rows {placements row : List Placement} {line : Nat}
    (listed : (row, line) ∈ (rows placements).zipIdx) {placement : Placement}
    (member : placement ∈ row) : placement.generatedLine = line := by
  obtain ⟨_, rfl⟩ : line < lineCount placements ∧ onLine placements line = row := by
    simpa [rows, List.mem_zipIdx_iff_getElem?, List.getElem?_map, List.getElem?_eq_some_iff]
      using listed
  exact (generatedLine_of_mem_onLine member).2

/-- Line by line the placements are sorted by generated position. This is the
form in which the layout of lines enters all results on what is written and read
back. -/
theorem flatten_rows (placements : List Placement) :
    (rows placements).flatten = sortBy Placement.position placements := by
  rw [rows, ← List.flatMap_def]
  apply eq_sortBy
  · exact pairwise_flatMap_onLine placements _
  · intro position
    exact filter_position_flatMap_onLine placements position.1 position.2

end Mappings
end SourceMap

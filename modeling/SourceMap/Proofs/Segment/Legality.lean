import SourceMap.Proofs.Mappings.ReadCoordinates
import SourceMap.Proofs.Segment.Lockstep

/-!
# Legal cursors

Adding the differences of a segment comes before looking at the sums, and the sum
of a name index is only looked at for five fields. Still the cursor that is
carried on is legal wherever it came from: its coordinates are natural numbers,
and its indexes are zero, where they start, or places of their tables. For
differences that lead elsewhere are refused, and then the cursor stays where it
was. From a legal cursor, differences are refused for no other reason.

The differences are any numbers that can be encoded, in lists of any length. An
undefined difference cannot be, and with one the cursor would pass every check and
not be legal any more. Tables may be empty; an index may then be zero without
being a place, which is why the sum is looked at and not the cursor before it.
-/

namespace SourceMap

/-- Whether a number is zero, where every index starts, or a place of a table. -/
def Number.IsIndex (index : Number) (size : Nat) : Prop :=
  ∃ place : Nat, index = .ofNat place ∧ (place = 0 ∨ place < size)

/-- Zero is an index of every table, even of an empty one. -/
theorem Number.isIndex_zero (size : Nat) : Number.IsIndex 0 size := ⟨0, rfl, Or.inl rfl⟩

/-- An index is whole. -/
theorem Number.IsIndex.isWhole {index : Number} {size : Nat} (isIndex : index.IsIndex size) :
    index.IsWhole := by
  obtain ⟨place, rfl, _⟩ := isIndex
  rw [ofNat_eq_ofInt]
  exact isWhole_ofInt place

/-- A whole number that is a place of a table is an index of it. -/
theorem Number.IsPlace.isIndex {index : Number} {size : Nat} (place : index.IsPlace size)
    (whole : index.IsWhole) : index.IsIndex size := by
  cases index with
  | nan => cases place.below
  | infinite negative =>
    cases negative with
    | false => cases place.below
    | true => cases place.notNegative
  | finite value =>
    rw [whole.finite_eq_ofInt] at place ⊢
    obtain ⟨nonnegative, below⟩ := isPlace_ofInt_iff.mp place
    obtain ⟨natural, same⟩ := Int.eq_ofNat_of_zero_le nonnegative
    rw [same] at below ⊢
    exact ⟨natural, (ofNat_eq_ofInt natural).symm, Or.inr (by exact_mod_cast below)⟩

/-- What reading tries: to start a generated line, or to go on by differences at
a location. -/
abbrev Attempt := Mark (List Number × Location)

/-- Whether the differences of an attempt, if it has any, can be encoded. -/
def Attempt.IsEncodable : Attempt → Prop
  | .newLine => True
  | .segment (offset, _) => ∀ step ∈ offset, Vlq.IsEncodable step

namespace Cursor

variable {sources names : List String} {cursor next : Cursor} {offset : List Number}
  {location : Location}

/-- The cursor after an attempt. Differences that lead to no segment of the
tables leave it where it is. -/
def attempt (sources names : List String) (cursor : Cursor) : Attempt → Cursor
  | .newLine => cursor.newLine
  | .segment (offset, location) =>
    match cursor.step offset sources names location with
    | .ok (_, next) => next
    | .error _ => cursor

/-- A cursor that may be carried on: its coordinates are natural numbers and its
indexes are indexes of the tables. -/
structure Legal (sources names : List String) (cursor : Cursor) : Prop extends cursor.Reached where
  sourceIndex : cursor.sourceIndex.IsIndex sources.length
  nameIndex : cursor.nameIndex.IsIndex names.length

/-- Differences that lead from a cursor to one at which a segment of the tables
stands. The name index need not be a place of the names where it is not moved.
Nothing here refers to a step: it is what a step is compared with. -/
structure Leads (sources names : List String) (cursor : Cursor) (offset : List Number)
    (next : Cursor) : Prop where
  added : ∃ column source line place name,
    offset = [column, source, line, place] ++ Option.toList name ∧
      next = cursor.moved column source line place name
  notNegative : next.NotNegative
  source : next.sourceIndex.IsPlace sources.length
  name : offset.length = 5 → next.nameIndex.IsPlace names.length

/-- Every cursor starts legal, whatever the tables are. -/
theorem legal_start : start.Legal sources names :=
  ⟨reached_start, Number.isIndex_zero _, Number.isIndex_zero _⟩

/-- A legal cursor is legal on the next line. -/
theorem Legal.newLine (legal : cursor.Legal sources names) : cursor.newLine.Legal sources names :=
  ⟨legal.toReached.newLine, legal.sourceIndex, legal.nameIndex⟩

/-- Where differences lead, the indexes are whole. -/
theorem Legal.isWhole_moved (legal : cursor.Legal sources names) {column source line place : Number}
    {name : Option Number}
    (each : ∀ step ∈ [column, source, line, place] ++ name.toList, Vlq.IsEncodable step) :
    (cursor.moved column source line place name).sourceIndex.IsWhole ∧
      (cursor.moved column source line place name).nameIndex.IsWhole := by
  have whole {step : Number} (member : step ∈ [column, source, line, place] ++ name.toList)
      {left : Number} (leftWhole : left.IsWhole) : (left + step).IsWhole := by
    obtain ⟨integer, rfl, _⟩ := each step member
    exact leftWhole.add_ofInt integer
  refine ⟨whole (by simp) legal.sourceIndex.isWhole, ?_⟩
  cases name with
  | none => exact legal.nameIndex.isWhole
  | some index => exact whole (by simp) legal.nameIndex.isWhole

/-- From a legal cursor, a step succeeds exactly if its differences lead
somewhere, and it goes there. The guards compare numbers, and a legal cursor and
differences that can be encoded make them compare whole ones, where to be neither
below zero nor beyond a table is to be a place of it. -/
theorem Legal.step_eq_ok_iff (legal : cursor.Legal sources names)
    (each : ∀ step ∈ offset, Vlq.IsEncodable step) :
    (∃ resolved, cursor.step offset sources names location = .ok (resolved, next)) ↔
      Leads sources names cursor offset next := by
  constructor
  · rintro ⟨resolved, success⟩
    obtain ⟨⟨segment, left⟩, advanced, success⟩ := Walk.bind_eq_ok.mp success
    obtain ⟨found, looked, success⟩ := Walk.bind_eq_ok.mp success
    obtain ⟨rfl, rfl⟩ := Prod.mk.inj (Except.ok.inj success)
    obtain ⟨column, source, line, place, name, rfl, rfl, rfl⟩ := advance_eq_ok_iff.mp advanced
    obtain ⟨sourceWhole, nameWhole⟩ := legal.isWhole_moved each
    have resolvesTo := Mappings.resolvesTo_of_resolve looked
    refine ⟨⟨column, source, line, place, name, rfl, rfl⟩,
      ⟨resolvesTo.columnChecked, resolvesTo.lineChecked, resolvesTo.placeChecked⟩, ?_, ?_⟩
    · exact sourceWhole.isOutside_eq_false_iff.mp resolvesTo.sourceChecked
    · intro five
      cases name with
      | none => simp at five
      | some index =>
        exact nameWhole.isOutside_eq_false_iff.mp (resolvesTo.nameChecked _ rfl)
  · rintro ⟨⟨column, source, line, place, name, rfl, rfl⟩, notNegative, sourcePlace, namePlace⟩
    obtain ⟨sourceWhole, nameWhole⟩ := legal.isWhole_moved each
    have named : name.isSome = true →
        (cursor.moved column source line place name).nameIndex.IsPlace names.length := by
      intro present
      obtain ⟨index, rfl⟩ := Option.isSome_iff_exists.mp present
      exact namePlace rfl
    obtain ⟨resolved, looked⟩ := Mappings.exists_resolve_segment_eq_ok notNegative sourceWhole
      sourcePlace nameWhole named location
    exact ⟨resolved, Walk.bind_eq_ok.mpr
      ⟨_, advance_eq_ok_iff.mpr ⟨_, _, _, _, _, rfl, rfl, rfl⟩,
        Walk.bind_eq_ok.mpr ⟨_, looked, rfl⟩⟩⟩

/-- Where differences lead from a legal cursor, the cursor is legal again. -/
theorem Leads.legal (leads : Leads sources names cursor offset next)
    (legal : cursor.Legal sources names) (each : ∀ step ∈ offset, Vlq.IsEncodable step) :
    next.Legal sources names := by
  obtain ⟨⟨column, source, line, place, name, rfl, rfl⟩, notNegative, sourcePlace, namePlace⟩ :=
    leads
  obtain ⟨sourceWhole, nameWhole⟩ := legal.isWhole_moved each
  refine ⟨⟨?_, ?_, ?_⟩, sourcePlace.isIndex sourceWhole, ?_⟩
  · obtain ⟨step, rfl, writable⟩ := each column (by simp)
    exact legal.generatedColumn.add writable notNegative.generatedColumn
  · obtain ⟨step, rfl, writable⟩ := each line (by simp)
    exact legal.originalLine.add writable notNegative.originalLine
  · obtain ⟨step, rfl, writable⟩ := each place (by simp)
    exact legal.originalColumn.add writable notNegative.originalColumn
  · cases name with
    | none => exact legal.nameIndex
    | some index => exact (namePlace rfl).isIndex nameWhole

/-- An attempt at differences leaves the cursor where it is or steps on to
another one. -/
theorem attempt_segment (sources names : List String) (cursor : Cursor) (offset : List Number)
    (location : Location) :
    cursor.attempt sources names (.segment (offset, location)) = cursor ∨
      ∃ resolved, cursor.step offset sources names location =
        .ok (resolved, cursor.attempt sources names (.segment (offset, location))) := by
  cases outcome : cursor.step offset sources names location with
  | error fault => exact Or.inl (by simp only [attempt, outcome])
  | ok result => exact Or.inr ⟨result.1, by simp only [attempt, outcome]⟩

/-- An attempt keeps a cursor legal. -/
theorem Legal.attempt (legal : cursor.Legal sources names) {attempt : Attempt}
    (each : attempt.IsEncodable) : (cursor.attempt sources names attempt).Legal sources names := by
  cases attempt with
  | newLine => exact legal.newLine
  | segment tried =>
    obtain ⟨offset, location⟩ := tried
    rcases attempt_segment sources names cursor offset location with same | stepped
    · rw [same]
      exact legal
    · exact ((legal.step_eq_ok_iff each).mp stepped).legal legal each

/-- Attempts keep a cursor legal. -/
theorem Legal.foldl_attempt (legal : cursor.Legal sources names) {attempts : List Attempt}
    (each : ∀ attempt ∈ attempts, attempt.IsEncodable) :
    (attempts.foldl (Cursor.attempt sources names) cursor).Legal sources names := by
  induction attempts generalizing cursor with
  | nil => exact legal
  | cons first rest inductionHypothesis =>
    exact inductionHypothesis (legal.attempt (each first List.mem_cons_self)) fun attempt member =>
      each attempt (List.mem_cons_of_mem first member)

/-- The name index is only moved by a step of five differences that succeeds. -/
theorem exists_step_of_nameIndex_ne {attempt : Attempt}
    (moved : (cursor.attempt sources names attempt).nameIndex ≠ cursor.nameIndex) :
    ∃ offset location resolved, attempt = .segment (offset, location) ∧ offset.length = 5 ∧
      cursor.step offset sources names location =
        .ok (resolved, cursor.attempt sources names attempt) := by
  cases attempt with
  | newLine => exact absurd rfl moved
  | segment tried =>
    obtain ⟨offset, location⟩ := tried
    rcases attempt_segment sources names cursor offset location with same | ⟨resolved, stepped⟩
    · exact absurd (congrArg nameIndex same) moved
    · refine ⟨offset, location, resolved, rfl, ?_, stepped⟩
      obtain ⟨⟨segment, left⟩, advanced, success⟩ := Walk.bind_eq_ok.mp stepped
      obtain ⟨found, _, success⟩ := Walk.bind_eq_ok.mp success
      obtain ⟨_, same⟩ := Prod.mk.inj (Except.ok.inj success)
      rcases nameIndex_of_advance advanced with ⟨_, _, kept⟩ | ⟨five, _⟩
      · exact absurd (same ▸ kept) moved
      · exact five

/-- Whatever is tried, the cursor stays legal. After any starts of generated
lines and any differences that can be encoded, however many fields they have and
however many of them are refused, its coordinates are natural numbers, and each
of its indexes is zero or a place of its table. A step from there succeeds
exactly if its differences lead somewhere; nothing but such a step of five
differences moves the name index; and the start of a line puts the generated
column to zero and leaves the rest.

Proof: an attempt keeps a cursor legal, and the attempts are a fold. A sum of a
legal coordinate and a step that can be encoded is checked not to be negative,
so it is a natural number again, rounded or not. -/
theorem legal_after_attempts (sources names : List String) {attempts : List Attempt}
    (each : ∀ attempt ∈ attempts, attempt.IsEncodable) :
    let reached := attempts.foldl (attempt sources names) start
    reached.Legal sources names ∧
      (∀ offset location next, (∀ step ∈ offset, Vlq.IsEncodable step) →
        ((∃ resolved, reached.step offset sources names location = .ok (resolved, next)) ↔
          Leads sources names reached offset next)) ∧
      (∀ attempt, (reached.attempt sources names attempt).nameIndex ≠ reached.nameIndex →
        ∃ offset location resolved, attempt = .segment (offset, location) ∧ offset.length = 5 ∧
          reached.step offset sources names location =
            .ok (resolved, reached.attempt sources names attempt)) ∧
      reached.attempt sources names .newLine = { reached with generatedColumn := 0 } := by
  intro reached
  have legal : reached.Legal sources names := legal_start.foldl_attempt each
  exact ⟨legal, fun _ _ _ encodable => legal.step_eq_ok_iff encodable,
    fun _ moved => exists_step_of_nameIndex_ne moved, rfl⟩

/-- Between steps that succeed, one is refused for a negative column, one for a
source that is not there, one for a name that is not there and one for a sixth
field. The sums that were refused are not seen again: the name index then
returns to the first name. -/
theorem legal_after_attempts_refused :
    let sources := ["a.js", "b.js"]
    let names := ["f", "g"]
    let tried (fields : List Int) : Attempt := .segment (fields.map .ofInt, {})
    let attempts := [tried [4, 1, 2, 3, 1], tried [-5, 0, 0, 0], .newLine, tried [1, 1, 0, 0],
      tried [2, -1, 0, -3], tried [1, 0, 0, 0, 1], tried [1, 0, 0, 0, 0, 0]]
    let reached := attempts.foldl (attempt sources names) start
    let back := tried [0, 0, 0, 0, -1]
    (∀ attempt ∈ attempts, attempt.IsEncodable) ∧ reached = ⟨2, 0, 2, 0, 1⟩ ∧
      reached.Legal sources names ∧
      (∃ resolved, reached.step ([0, 0, 0, 0, -1].map .ofInt) sources names {} =
        .ok (resolved, ⟨2, 0, 2, 0, 0⟩)) ∧
      ∃ offset location resolved, back = .segment (offset, location) ∧ offset.length = 5 ∧
        reached.step offset sources names location =
          .ok (resolved, reached.attempt sources names back) := by
  intro sources names tried attempts reached back
  have bounded (fields : List Int) (small : ∀ field ∈ fields, field.natAbs ≤ Coordinate.greatest) :
      (tried fields).IsEncodable := by
    intro step member
    obtain ⟨field, listed, rfl⟩ := List.mem_map.mp member
    exact ⟨field, rfl, small field listed⟩
  have each : ∀ attempt ∈ attempts, attempt.IsEncodable := by
    simp only [attempts, List.forall_mem_cons]
    refine ⟨bounded _ ?_, bounded _ ?_, trivial, bounded _ ?_, bounded _ ?_, bounded _ ?_,
      bounded _ ?_, by simp⟩ <;> decide
  have place : reached = ⟨2, 0, 2, 0, 1⟩ := by decide +kernel
  obtain ⟨legal, succeeds, moves, _⟩ := legal_after_attempts sources names each
  refine ⟨each, place, legal, ?_, moves back (by decide +kernel)⟩
  have leads : Leads sources names reached ([0, 0, 0, 0, -1].map .ofInt) ⟨2, 0, 2, 0, 0⟩ :=
    { added := ⟨0, 0, 0, 0, some (.ofInt (-1)), by decide, by decide +kernel⟩
      notNegative := ⟨rfl, rfl, rfl⟩
      source := ⟨rfl, by decide +kernel⟩
      name := fun _ => ⟨rfl, by decide +kernel⟩ }
  exact (succeeds _ _ _ (bounded [0, 0, 0, 0, -1] (by decide))).mpr leads

end Cursor
end SourceMap

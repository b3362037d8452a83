import SourceMap.Proofs.Mappings.PrefixSums
import SourceMap.Proofs.Mappings.TokenPlaces
import SourceMap.Proofs.Number.Whole

/-!
# Running totals

The cursor of reading, without reading: a field stands where its values up to some
segment lead, added one after the other and each sum rounded. The generated column
adds up on the line of the segment only, and a segment without a field does not
move it. These totals are whole numbers, also where they are no longer exact.

In contrast to the totals of `Mappings.PrefixSums` they are defined for all texts
and never part from the cursor. The price is that they depend on the order of the
segments, since a rounded sum does. They serve to say at which token a text is
refused, and for that the numbers that the cursor really stands at are what
counts.
-/

namespace SourceMap
namespace Mappings

/-- The running total of a field over segments; a segment without it adds
nothing. -/
def runningTotal (number : Nat) (wires : List Wire) : Number :=
  (wires.filterMap (·.fields[number]?)).foldl (fun sum field => sum + .ofInt field) 0

/-- Where the running totals of segments stand on a line. -/
def standing (upTo : List Wire) (line : Nat) : Cursor where
  generatedColumn := runningTotal 0 (upTo.filter (·.line = line))
  sourceIndex := runningTotal 1 upTo
  originalLine := runningTotal 2 upTo
  originalColumn := runningTotal 3 upTo
  nameIndex := runningTotal 4 upTo

/-- Where the running totals stand at a token, after the tokens before it. -/
def Token.standing (before : List Token) (token : Token) : Cursor :=
  Mappings.standing ((before ++ [token]).map Token.wire) token.line

/-- One more segment adds its field, if it has one. -/
theorem runningTotal_concat (number : Nat) (wires : List Wire) (wire : Wire) :
    runningTotal number (wires ++ [wire]) =
      (wire.fields[number]?.map (runningTotal number wires + .ofInt ·)).getD
        (runningTotal number wires) := by
  rw [runningTotal, List.filterMap_append, List.foldl_append]
  cases found : wire.fields[number]? <;> simp [found, runningTotal]

/-- A running total is a whole number. -/
theorem isWhole_runningTotal (number : Nat) (wires : List Wire) :
    (runningTotal number wires).IsWhole := by
  induction wires using List.reverseRecOn with
  | nil => exact Number.isWhole_ofInt 0
  | append_singleton earlier wire inductionHypothesis =>
    rw [runningTotal_concat]
    cases wire.fields[number]? with
    | none => exact inductionHypothesis
    | some field => exact inductionHypothesis.add_ofInt field

/-- Advancing by the fields of a segment goes on to the running totals with it. -/
theorem advance_standing {fields : List Int} (count : fields.length = 4 ∨ fields.length = 5)
    (before : List Wire) (line : Nat) (location : Location) :
    (standing before line).advance (fields.map .ofInt) location =
      .ok ((standing (before ++ [⟨line, fields⟩]) line).segment (fields.length = 5),
        standing (before ++ [⟨line, fields⟩]) line) := by
  have columns : (before ++ [Wire.mk line fields]).filter (·.line = line) =
      before.filter (·.line = line) ++ [⟨line, fields⟩] := by simp
  rcases fields with
    _ | ⟨column, _ | ⟨source, _ | ⟨originalLine, _ | ⟨place, _ | ⟨name, _ | ⟨more, rest⟩⟩⟩⟩⟩⟩
  case cons.cons.cons.cons.nil =>
    simp [standing, Cursor.advance, columns, runningTotal_concat]
  case cons.cons.cons.cons.cons.nil =>
    simp [standing, Cursor.advance, columns, runningTotal_concat]
  all_goals simp at count

/-- The first token of a text starts from the running totals of none. -/
theorem startFrom_start {token : Token} (follows : Follows [] token) :
    token.startFrom .start = standing [] token.line := by
  have first : token.segment = 0 := by
    by_contra further
    obtain ⟨earlier, last, impossible, _⟩ := follows.further further
    simp at impossible
  rw [Token.startFrom, if_pos first]
  rfl

/-- The running totals at a token are those that the next one starts from; where
that is the first of its line, the generated column has not been moved there
yet. -/
theorem startFrom_standing {before : List Token} {token next : Token}
    (follows : Follows (before ++ [token]) next) :
    next.startFrom (token.standing before) =
      standing ((before ++ [token]).map Token.wire) next.line := by
  by_cases first : next.segment = 0
  · have nothing : ((before ++ [token]).map Token.wire).filter (·.line = next.line) = [] := by
      rw [List.filter_eq_nil_iff]
      intro wire member
      obtain ⟨earlier, listed, rfl⟩ := List.mem_map.mp member
      exact fun same => follows.first first earlier listed (of_decide_eq_true same)
    rw [Token.startFrom, if_pos first, standing, nothing]
    rfl
  · obtain ⟨earlier, last, split, sameLine⟩ := follows.further first
    obtain ⟨_, same⟩ := List.append_inj' split rfl
    obtain rfl : token = last := by simpa using same
    rw [Token.startFrom, if_neg first, Token.standing, sameLine]

end Mappings
end SourceMap

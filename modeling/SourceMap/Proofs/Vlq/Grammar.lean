import SourceMap.Proofs.Number.Order
import SourceMap.Proofs.Vlq.RoundTrip

/-!
# The grammar of a run

A value is spelled by digits of which each but the last announces another one;
what their data add up to has to stay below the bound of exact integers, so it is
an integer that can be written again. A run is one value or several, one after the
other.

A value may go on beyond the last place of finite weight, and then its sum is not
a number any more. It takes a digit for each of these places, each announcing
another one, and one more digit. That is a long value. What is said of mappings
texts is said of those without a long value anywhere; `Outlasts` and `RunOutlasts`
say where in a run of digits reading comes to one.
-/

namespace SourceMap.Vlq

/-- A digit that announces another one. -/
def Continues (char : Char) : Prop := ∃ digit, digitValue? char = some digit ∧ 32 ≤ digit

/-- Whether characters are the digits of one value, each but the last announcing
another one, and what their data add up to, the first digit being the least
significant. -/
inductive Chained : List Char → Nat → Prop
  | last {char : Char} {digit : Nat} :
      digitValue? char = some digit → digit < 32 → Chained [char] digit
  | more {char : Char} {digit : Nat} {rest : List Char} {later : Nat} :
      digitValue? char = some digit → 32 ≤ digit → Chained rest later →
      Chained (char :: rest) (digit % 32 + 32 * later)

/-- Whether characters spell one value: their digits are chained, and the data
are the value, its sign folded in, below the bound of exact integers. -/
def SpellsValue (chars : List Char) (value : Int) : Prop :=
  ∃ spelled < Number.exactBound, Chained chars spelled ∧ unfoldSign spelled = value

/-- Whether a text spells values one after the other, at least one. -/
inductive Spells : List Char → List Int → Prop
  | last {chars : List Char} {value : Int} : SpellsValue chars value → Spells chars [value]
  | more {chars rest : List Char} {value : Int} {values : List Int} :
      SpellsValue chars value → Spells rest values → Spells (chars ++ rest) (value :: values)

/-- Whether a value in a text has more digits than there are places of finite
weight: that many digits announce another one each, and another one follows. It
does not matter where in the text they are, nor what they add up to; so a text
without a long value has none in any of its parts. -/
def HasLongValue (text : List Char) : Prop :=
  ∃ chain next, chain.length = endlessPlace ∧ (∀ char ∈ chain, Continues char) ∧
    (digitValue? next).isSome = true ∧ chain ++ [next] <:+: text

/-- A part of a text has no long value that the text does not have. -/
theorem HasLongValue.of_infix {inner text : List Char} (long : HasLongValue inner)
    (within : inner <:+: text) : HasLongValue text := by
  obtain ⟨chain, next, length, continues, isDigit, inside⟩ := long
  exact ⟨chain, next, length, continues, isDigit, inside.trans within⟩

/-- A text with no more characters than there are places of finite weight has no
long value. -/
theorem not_hasLongValue_of_length_le {text : List Char} (fits : text.length ≤ endlessPlace) :
    ¬HasLongValue text := by
  rintro ⟨chain, next, length, _, _, inside⟩
  have longer := inside.length_le
  rw [List.length_append, length, List.length_singleton] at longer
  omega

/-- A value takes at least one digit. -/
theorem Chained.length_pos {chars : List Char} {spelled : Nat} (chained : Chained chars spelled) :
    0 < chars.length := by
  cases chained <;> simp

/-- An exact number is of an integer that can be written, whatever its sign. -/
theorem natAbs_unfoldSign_le {spelled : Nat} (exact : spelled < Number.exactBound) :
    (unfoldSign spelled).natAbs ≤ Coordinate.greatest := by
  rw [Coordinate.greatest_eq]
  unfold Number.exactBound at exact
  unfold unfoldSign
  split <;> omega

/-- A value that is spelled can be written. -/
theorem SpellsValue.natAbs_le {chars : List Char} {value : Int}
    (spells : SpellsValue chars value) : value.natAbs ≤ Coordinate.greatest := by
  obtain ⟨spelled, exact, _, rfl⟩ := spells
  exact natAbs_unfoldSign_le exact

/-- The values that a text spells can be written. -/
theorem Spells.natAbs_le {run : List Char} {values : List Int} (spells : Spells run values) :
    ∀ value ∈ values, value.natAbs ≤ Coordinate.greatest := by
  induction spells with
  | last first =>
    intro value member
    obtain rfl := List.mem_singleton.mp member
    exact first.natAbs_le
  | more first _ inductionHypothesis =>
    intro value member
    rcases List.mem_cons.mp member with rfl | later
    · exact first.natAbs_le
    · exact inductionHypothesis value later

/-- A digit is among the printed characters. -/
theorem printed_of_digitValue? {char : Char} {digit : Nat}
    (isDigit : digitValue? char = some digit) :
    '+'.toNat ≤ char.toNat ∧ char.toNat ≤ 'z'.toNat := by
  have between {low high : Char} (range : low ≤ char ∧ char ≤ high) :
      low.toNat ≤ char.toNat ∧ char.toNat ≤ high.toNat := range
  unfold digitValue? at isDigit
  split at isDigit
  · rename_i capital
    exact ⟨le_trans (by decide) (between capital).1, le_trans (between capital).2 (by decide)⟩
  split at isDigit
  · rename_i small
    exact ⟨le_trans (by decide) (between small).1, le_trans (between small).2 (by decide)⟩
  split at isDigit
  · rename_i figure
    exact ⟨le_trans (by decide) (between figure).1, le_trans (between figure).2 (by decide)⟩
  split at isDigit
  · rename_i plus
    subst plus
    decide
  split at isDigit
  · rename_i slash
    subst slash
    decide
  · cases isDigit

/-- A digit is not blank. -/
theorem not_blank_of_digitValue? {char : Char} {digit : Nat}
    (isDigit : digitValue? char = some digit) : Blank.isBlank char = false := by
  obtain ⟨low, high⟩ := printed_of_digitValue? isDigit
  change 43 ≤ char.toNat at low
  change char.toNat ≤ 122 at high
  rw [Blank.isBlank, List.any_eq_false]
  simp only [Blank.ranges, List.mem_cons, List.not_mem_nil, or_false, decide_eq_true_eq]
  rintro range (rfl | rfl | rfl | rfl | rfl | rfl | rfl | rfl | rfl | rfl) <;>
    simp only <;> omega

/-- A text that spells values starts with a digit, so it is not blank. -/
theorem Spells.not_blank {run : List Char} {values : List Int} (spells : Spells run values) :
    Blank.isBlankText run = false := by
  obtain ⟨char, rest, digit, rfl, isDigit⟩ :
      ∃ char rest digit, run = char :: rest ∧ digitValue? char = some digit := by
    rcases spells with ⟨⟨_, _, chained, _⟩⟩ | ⟨⟨_, _, chained, _⟩, _⟩ <;>
      rcases chained with ⟨isDigit, _⟩ | ⟨isDigit, _, _⟩ <;> exact ⟨_, _, _, rfl, isDigit⟩
  exact List.all_eq_false.mpr
    ⟨char, List.mem_cons_self, by simp [not_blank_of_digitValue? isDigit]⟩

end SourceMap.Vlq

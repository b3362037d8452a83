import SourceMap.Proofs.Json.Numbers
import SourceMap.Proofs.Json.Strings

/-!
# Reading back JSON text

What is written for a value is read as that value again, in either spacing and
with spaces behind it. Two things can be lost in between: a number that is no
exact integer may be written as null, and the fields of an object come back in the
order of enumeration, of one name only the last. A writable value has none of
these anywhere in it.

The reader spends fuel on every value, item and field. It never spends more than
two units for a character, so the fuel it starts with lasts for any text.
-/

namespace SourceMap.Json

/-- Values that are read back from their text: the numbers in them are exact
integers, and setting the fields of an object one after the other gives the
object. -/
inductive Writable : Json → Prop
  | null : Writable .null
  | bool (value : Bool) : Writable (.bool value)
  | number {value : Number} (exact : value.IsExactInteger) : Writable (.number value)
  | string (value : String) : Writable (.string value)
  | array {items : List Json} (each : ∀ item ∈ items, Writable item) : Writable (.array items)
  | object {fields : List (String × Json)} (each : ∀ field ∈ fields, Writable field.2)
      (kept : ofFields fields = .object fields) : Writable (.object fields)

/-- A line break is skipped. -/
theorem skipSpace_lineBreak (spacing : Spacing) (level : Nat) (chars : List Char) :
    skipSpace (spacing.lineBreak level ++ chars) = skipSpace chars := by
  refine List.dropWhile_append_of_pos ?_
  intro char member
  cases spacing with
  | compact => simp [Spacing.lineBreak] at member
  | indented =>
    simp only [Spacing.lineBreak, List.mem_cons, List.mem_replicate] at member
    rcases member with rfl | ⟨_, rfl⟩ <;> rfl

/-- The spaces before a value do not matter. -/
theorem readValue_congr {chars others : List Char} (same : skipSpace chars = skipSpace others)
    (fuel : Nat) : readValue fuel chars = readValue fuel others := by
  cases fuel with
  | zero => rw [readValue, readValue]
  | succ fuel => rw [readValue, readValue, same]

/-- The spaces before items do not matter. -/
theorem readItems_congr {chars others : List Char} (same : skipSpace chars = skipSpace others)
    (fuel : Nat) : readItems fuel chars = readItems fuel others := by
  cases fuel with
  | zero => rw [readItems, readItems]
  | succ fuel => rw [readItems, readItems, readValue_congr same]

/-- The spaces before fields do not matter. -/
theorem readFields_congr {chars others : List Char} (same : skipSpace chars = skipSpace others)
    (fuel : Nat) : readFields fuel chars = readFields fuel others := by
  cases fuel with
  | zero => rw [readFields, readFields]
  | succ fuel => rw [readFields, readFields, same]

/-- Whether a character can start a value: it is no space and does not close an
array. -/
def StartsValue (char : Char) : Prop := char ∉ [' ', '\t', '\n', '\r', ']']

instance (char : Char) : Decidable (StartsValue char) :=
  inferInstanceAs (Decidable (char ∉ [' ', '\t', '\n', '\r', ']']))

/-- A character that starts a value is no space. -/
theorem skipSpace_of_startsValue {char : Char} (starts : StartsValue char) (rest : List Char) :
    skipSpace (char :: rest) = char :: rest := by
  simp only [StartsValue, List.mem_cons, List.not_mem_nil, or_false, not_or] at starts
  simp [skipSpace, starts]

/-- Whether a value is read back wherever it was written, at the cost of two
units of fuel for each of its characters. That it starts with a character of its
own is needed by the array around it, which would otherwise take an item for its
end. -/
structure ReadsBack (value : Json) : Prop where
  starts : ∀ spacing level, ∃ first more, write spacing level value = first :: more ∧
    StartsValue first
  reads : ∀ spacing level fuel rest, EndsNumber rest →
    2 * (write spacing level value).length ≤ fuel →
      readValue fuel (write spacing level value ++ rest) = some (value, rest)

/-- No number goes on with a comma, a bracket or a line break. -/
theorem endsNumber_cons {char : Char} (separates : char ∈ [',', ']', '}', '\n'])
    (rest : List Char) : EndsNumber (char :: rest) := by
  intro first found
  obtain rfl := Option.some.inj found
  revert separates
  simp only [List.mem_cons, List.not_mem_nil, or_false]
  rintro (rfl | rfl | rfl | rfl) <;> decide

/-- No number goes on with a line break and a bracket. -/
theorem endsNumber_lineBreak (spacing : Spacing) (level : Nat) {closing : Char}
    (closes : closing ∈ [']', '}']) (rest : List Char) :
    EndsNumber (spacing.lineBreak level ++ closing :: rest) := by
  cases spacing with
  | compact =>
    refine endsNumber_cons ?_ rest
    revert closes
    simp only [List.mem_cons, List.not_mem_nil, or_false]
    tauto
  | indented => exact endsNumber_cons (by decide) _

/-- What follows an item is the next one, or the end of the array. -/
theorem endsNumber_writeItems (spacing : Spacing) (level outer : Nat) (items : List Json)
    (rest : List Char) :
    EndsNumber (writeItems spacing level items ++ (spacing.lineBreak outer ++ ']' :: rest)) := by
  cases items with
  | nil => exact endsNumber_lineBreak spacing outer (by decide) rest
  | cons item items => exact endsNumber_cons (by decide) _

/-- What follows a field is the next one, or the end of the object. -/
theorem endsNumber_writeFields (spacing : Spacing) (level outer : Nat)
    (fields : List (String × Json)) (rest : List Char) :
    EndsNumber (writeFields spacing level fields ++ (spacing.lineBreak outer ++ '}' :: rest)) := by
  cases fields with
  | nil => exact endsNumber_lineBreak spacing outer (by decide) rest
  | cons field fields => exact endsNumber_cons (by decide) _

/-- An item before a bracket is the last one. -/
theorem readItems_last {fuel : Nat} {chars after rest : List Char} {item : Json}
    (read : readValue fuel chars = some (item, after)) (closing : skipSpace after = ']' :: rest) :
    readItems (fuel + 1) chars = some ([item], rest) := by
  rw [readItems, read]
  simp only [Option.bind_eq_bind, Option.bind_some, closing]
  rfl

/-- An item before a comma is followed by others. -/
theorem readItems_next {fuel : Nat} {chars after further rest : List Char} {item : Json}
    {items : List Json} (read : readValue fuel chars = some (item, after))
    (comma : skipSpace after = ',' :: further)
    (later : readItems fuel further = some (items, rest)) :
    readItems (fuel + 1) chars = some (item :: items, rest) := by
  rw [readItems, read]
  simp only [Option.bind_eq_bind, Option.bind_some, comma, later]
  rfl

/-- The items of an array are read back up to its closing bracket, whatever text
comes after it. The fuel has to last for the items that are left, which the length
of their text bounds. -/
theorem readItems_write (spacing : Spacing) (level outer : Nat) {item : Json} {items : List Json}
    (each : ∀ value ∈ item :: items, ReadsBack value) {fuel : Nat}
    (enough : 2 * ((write spacing level item).length +
      (writeItems spacing level items).length) + 1 ≤ fuel) (rest : List Char) :
    readItems fuel (write spacing level item ++ (writeItems spacing level items ++
      (spacing.lineBreak outer ++ ']' :: rest))) = some (item :: items, rest) := by
  induction items generalizing item fuel with
  | nil =>
    obtain ⟨fuel, rfl⟩ : ∃ less, fuel = less + 1 := ⟨fuel - 1, by omega⟩
    refine readItems_last ((each item List.mem_cons_self).reads spacing level fuel _
      (endsNumber_writeItems spacing level outer [] rest) (by omega)) ?_
    rw [writeItems, List.nil_append, skipSpace_lineBreak]
    rfl
  | cons next items inductionHypothesis =>
    obtain ⟨fuel, rfl⟩ : ∃ less, fuel = less + 1 := ⟨fuel - 1, by omega⟩
    have comma : skipSpace (writeItems spacing level (next :: items) ++
        (spacing.lineBreak outer ++ ']' :: rest)) =
          ',' :: (spacing.lineBreak level ++ (write spacing level next ++
            (writeItems spacing level items ++ (spacing.lineBreak outer ++ ']' :: rest)))) := by
      simp only [writeItems, List.cons_append, List.append_assoc]
      rfl
    refine readItems_next ((each item List.mem_cons_self).reads spacing level fuel _
      (endsNumber_writeItems spacing level outer (next :: items) rest) (by omega)) comma ?_
    rw [readItems_congr (skipSpace_lineBreak spacing level _)]
    have further : ∀ value ∈ next :: items, ReadsBack value := fun value member =>
      each value (List.mem_cons_of_mem item member)
    refine inductionHypothesis further ?_
    simp only [writeItems, List.length_cons, List.length_append] at enough
    omega

/-- The name of a field is read up to its value. -/
theorem exists_readString_name (spacing : Spacing) (name : String) {fuel : Nat}
    {chars after : List Char} {value : Json} (read : readValue fuel chars = some (value, after)) :
    ∃ named before, skipSpace (writeString name ++ (spacing.colon ++ chars)) = '"' :: named ∧
      readString named = some (name, before) ∧
      ∃ behind, skipSpace before = ':' :: behind ∧ readValue fuel behind = some (value, after) := by
  refine ⟨name.toList.flatMap writeChar ++ '"' :: (spacing.colon ++ chars), spacing.colon ++ chars,
    ?_, readString_writeString name _, ?_⟩
  · simp only [writeString, List.append_assoc, List.cons_append, List.nil_append]
    rfl
  · cases spacing with
    | compact => exact ⟨chars, rfl, read⟩
    | indented =>
      have same : skipSpace (' ' :: chars) = skipSpace chars := rfl
      exact ⟨' ' :: chars, rfl, (readValue_congr same fuel).trans read⟩

/-- A field before a brace is the last one. -/
theorem readFields_last (spacing : Spacing) {fuel : Nat} {name : String}
    {chars after rest : List Char} {value : Json}
    (read : readValue fuel chars = some (value, after)) (closing : skipSpace after = '}' :: rest) :
    readFields (fuel + 1) (writeString name ++ (spacing.colon ++ chars)) =
      some ([(name, value)], rest) := by
  obtain ⟨named, before, quote, readName, behind, colon, readBehind⟩ :=
    exists_readString_name spacing name read
  rw [readFields, quote]
  simp only [Option.bind_eq_bind, readName, Option.bind_some, colon, readBehind, closing]
  rfl

/-- A field before a comma is followed by others. -/
theorem readFields_next (spacing : Spacing) {fuel : Nat} {name : String}
    {chars after further rest : List Char} {value : Json} {fields : List (String × Json)}
    (read : readValue fuel chars = some (value, after)) (comma : skipSpace after = ',' :: further)
    (later : readFields fuel further = some (fields, rest)) :
    readFields (fuel + 1) (writeString name ++ (spacing.colon ++ chars)) =
      some ((name, value) :: fields, rest) := by
  obtain ⟨named, before, quote, readName, behind, colon, readBehind⟩ :=
    exists_readString_name spacing name read
  rw [readFields, quote]
  simp only [Option.bind_eq_bind, readName, Option.bind_some, colon, readBehind, comma, later]
  rfl

/-- The fields of an object are read back up to its closing brace, in the same
order and with repeated names as they are. The fuel is bounded as for items. -/
theorem readFields_write (spacing : Spacing) (level outer : Nat) {name : String} {value : Json}
    {fields : List (String × Json)} (each : ∀ field ∈ (name, value) :: fields, ReadsBack field.2)
    {fuel : Nat}
    (enough : 2 * ((write spacing level value).length +
      (writeFields spacing level fields).length) + 1 ≤ fuel) (rest : List Char) :
    readFields fuel (writeString name ++ (spacing.colon ++ (write spacing level value ++
      (writeFields spacing level fields ++ (spacing.lineBreak outer ++ '}' :: rest))))) =
        some ((name, value) :: fields, rest) := by
  have readsBack : ReadsBack value := each (name, value) List.mem_cons_self
  induction fields generalizing name value fuel with
  | nil =>
    obtain ⟨fuel, rfl⟩ : ∃ less, fuel = less + 1 := ⟨fuel - 1, by omega⟩
    refine readFields_last spacing (readsBack.reads spacing level fuel _
      (endsNumber_writeFields spacing level outer [] rest) (by omega)) ?_
    rw [writeFields, List.nil_append, skipSpace_lineBreak]
    rfl
  | cons next fields inductionHypothesis =>
    obtain ⟨fuel, rfl⟩ : ∃ less, fuel = less + 1 := ⟨fuel - 1, by omega⟩
    have comma : skipSpace (writeFields spacing level (next :: fields) ++
        (spacing.lineBreak outer ++ '}' :: rest)) =
          ',' :: (spacing.lineBreak level ++ (writeString next.1 ++ (spacing.colon ++
            (write spacing level next.2 ++ (writeFields spacing level fields ++
              (spacing.lineBreak outer ++ '}' :: rest)))))) := by
      simp only [writeFields, List.cons_append, List.append_assoc]
      rfl
    refine readFields_next spacing (readsBack.reads spacing level fuel _
      (endsNumber_writeFields spacing level outer (next :: fields) rest) (by omega)) comma ?_
    rw [readFields_congr (skipSpace_lineBreak spacing level _)]
    have further : ∀ field ∈ next :: fields, ReadsBack field.2 := fun field member =>
      each field (List.mem_cons_of_mem _ member)
    refine inductionHypothesis further ?_ (further next List.mem_cons_self)
    simp only [writeFields, List.length_cons, List.length_append] at enough
    omega

/-- A digit starts a value. -/
theorem startsValue_of_isDigit {char : Char} (digit : char.isDigit = true) : StartsValue char := by
  simp only [StartsValue, List.mem_cons, List.not_mem_nil, or_false, not_or]
  refine ⟨?_, ?_, ?_, ?_, ?_⟩ <;> (rintro rfl; revert digit; decide)

/-- What is written for an exact integer starts with a digit or a minus. -/
theorem exists_writeNumber_eq_cons {number : Number} (exact : number.IsExactInteger) :
    ∃ first more, writeNumber number = first :: more ∧ (first.isDigit = true ∨ first = '-') := by
  obtain ⟨value, rfl, bounded⟩ := exact
  have written : writeNumber (.ofInt value) =
      (if value < 0 then ['-'] else []) ++ Nat.toDigits 10 value.natAbs :=
    Number.chars_ofInt bounded
  rw [written]
  by_cases negative : value < 0
  · exact ⟨'-', Nat.toDigits 10 value.natAbs, by rw [if_pos negative]; rfl, Or.inr rfl⟩
  · cases digits : Nat.toDigits 10 value.natAbs with
    | nil => exact absurd digits Nat.toDigits_ne_nil
    | cons first more =>
      refine ⟨first, more, by rw [if_neg negative]; rfl, Or.inl ?_⟩
      exact Numeral.isDigit_toDigits _ first (digits ▸ List.mem_cons_self)

/-- A text that starts with a digit or a minus is read as a number. -/
theorem readValue_number {first : Char} {more rest : List Char} {number : Number}
    (numeric : first.isDigit = true ∨ first = '-') (fuel : Nat)
    (read : readNumber (first :: more) = some (number, rest)) :
    readValue (fuel + 1) (first :: more) = some (.number number, rest) := by
  have starts : StartsValue first := by
    rcases numeric with digit | rfl
    · exact startsValue_of_isDigit digit
    · decide
  have solid := skipSpace_of_startsValue starts more
  have others : ∀ other ∈ ['n', 't', 'f', '"', '[', '{'], first ≠ other := by
    rintro other member rfl
    rcases numeric with digit | rfl
    · simp only [List.mem_cons, List.not_mem_nil, or_false] at member
      rcases member with rfl | rfl | rfl | rfl | rfl | rfl <;> revert digit <;> decide
    · revert member
      decide
  rw [readValue, solid]
  split
  case h_7 => rw [read]; rfl
  all_goals
    rename_i same
    exact absurd (List.cons.inj same).1 (others _ (by decide))

/-- A bracket before a value starts an array of items. -/
theorem readValue_array {fuel : Nat} {chars more rest : List Char} {first : Char}
    {items : List Json} (solid : skipSpace chars = first :: more) (starts : StartsValue first)
    (read : readItems fuel chars = some (items, rest)) :
    readValue (fuel + 1) ('[' :: chars) = some (.array items, rest) := by
  have opened : skipSpace ('[' :: chars) = '[' :: chars := rfl
  have same : readItems fuel (first :: more) = readItems fuel chars :=
    readItems_congr ((skipSpace_of_startsValue starts more).trans solid.symm) fuel
  rw [readValue, opened]
  simp only [solid]
  split
  · rename_i closed
    rw [(List.cons.inj closed).1] at starts
    exact absurd starts (by decide)
  · rw [same, read]
    rfl

/-- A brace before a quote starts an object with fields. -/
theorem readValue_object {fuel : Nat} {chars more rest : List Char} {fields : List (String × Json)}
    (quote : skipSpace chars = '"' :: more) (read : readFields fuel chars = some (fields, rest)) :
    readValue (fuel + 1) ('{' :: chars) = some (.ofFields fields, rest) := by
  have opened : skipSpace ('{' :: chars) = '{' :: chars := rfl
  have same : readFields fuel ('"' :: more) = readFields fuel chars := by
    refine readFields_congr ?_ fuel
    rw [quote]
    rfl
  rw [readValue, opened]
  simp only [quote]
  split
  · rename_i closed
    exact absurd (List.cons.inj closed).1 (by decide)
  · rw [same, read]
    rfl

namespace ReadsBack

/-- A value is read back if its text is, from the second character on with what
follows it. -/
theorem of_write {value : Json} (first : Char) {more : Spacing → Nat → List Char}
    (starts : StartsValue first)
    (written : ∀ spacing level, write spacing level value = first :: more spacing level)
    (reads : ∀ spacing level fuel rest, EndsNumber rest →
      2 * (more spacing level).length < fuel →
        readValue (fuel + 1) (first :: (more spacing level ++ rest)) = some (value, rest)) :
    ReadsBack value := by
  refine ⟨fun spacing level => ⟨first, more spacing level, written spacing level, starts⟩, ?_⟩
  intro spacing level fuel rest ends enough
  rw [written, List.length_cons] at enough
  obtain ⟨fuel, rfl⟩ : ∃ less, fuel = less + 1 := ⟨fuel - 1, by omega⟩
  rw [written]
  exact reads spacing level fuel rest ends (by omega)

/-- Null is read back. -/
theorem null : ReadsBack .null := by
  refine of_write 'n' (by decide) (fun _ _ => rfl) fun _ _ fuel rest _ _ => ?_
  rw [readValue]
  rfl

/-- Truth values are read back. -/
theorem bool (value : Bool) : ReadsBack (.bool value) := by
  cases value with
  | false =>
    refine of_write 'f' (by decide) (fun _ _ => rfl) fun _ _ fuel rest _ _ => ?_
    rw [readValue]
    rfl
  | true =>
    refine of_write 't' (by decide) (fun _ _ => rfl) fun _ _ fuel rest _ _ => ?_
    rw [readValue]
    rfl

/-- A number that is an exact integer is read back. -/
theorem number {value : Number} (exact : value.IsExactInteger) : ReadsBack (.number value) := by
  obtain ⟨first, more, written, numeric⟩ := exists_writeNumber_eq_cons exact
  refine of_write first ?_ (fun _ _ => by rw [write, written]) fun _ _ fuel rest ends _ => ?_
  · rcases numeric with digit | rfl
    · exact startsValue_of_isDigit digit
    · decide
  · have read := readNumber_writeNumber exact ends
    rw [written] at read
    exact readValue_number numeric fuel read

/-- A string is read back. -/
theorem string (value : String) : ReadsBack (.string value) := by
  refine of_write '"' (by decide) (fun _ _ => by rw [write, writeString, List.cons_append])
    fun _ _ fuel rest _ _ => ?_
  have quote : skipSpace ('"' :: (value.toList.flatMap writeChar ++ ['"'] ++ rest)) =
      '"' :: (value.toList.flatMap writeChar ++ '"' :: rest) := by
    rw [List.append_assoc]
    rfl
  rw [readValue, quote]
  simp only [readString_writeString, Option.bind_eq_bind, Option.bind_some]
  rfl

/-- An array of values that are read back is read back. -/
theorem array {items : List Json} (each : ∀ item ∈ items, ReadsBack item) :
    ReadsBack (.array items) := by
  cases items with
  | nil =>
    refine of_write '[' (by decide) (fun _ _ => by rw [write]) fun _ _ fuel rest _ _ => ?_
    rw [readValue]
    rfl
  | cons item items =>
    refine of_write '[' (by decide) (fun _ _ => by
      simp only [write, List.cons_append, List.append_assoc]; rfl) ?_
    intro spacing level fuel rest _ enough
    simp only [List.length_append] at enough
    obtain ⟨first, more, written, starts⟩ :=
      (each item List.mem_cons_self).starts spacing (level + 1)
    have solid (after : List Char) : skipSpace (spacing.lineBreak (level + 1) ++
        (write spacing (level + 1) item ++ after)) = first :: (more ++ after) := by
      rw [skipSpace_lineBreak, written, List.cons_append, skipSpace_of_startsValue starts]
    simp only [List.append_assoc, List.cons_append, List.nil_append]
    refine readValue_array (solid _) starts ?_
    rw [readItems_congr (skipSpace_lineBreak spacing (level + 1) _)]
    exact readItems_write spacing (level + 1) level each (by omega) rest

/-- An object of values that are read back is read back, if setting its fields
one after the other gives it. -/
theorem object {fields : List (String × Json)} (each : ∀ field ∈ fields, ReadsBack field.2)
    (kept : ofFields fields = .object fields) : ReadsBack (.object fields) := by
  cases fields with
  | nil =>
    refine of_write '{' (by decide) (fun _ _ => by rw [write]) fun _ _ fuel rest _ _ => ?_
    rw [readValue]
    rfl
  | cons field fields =>
    refine of_write '{' (by decide) (fun _ _ => by
      simp only [write, List.cons_append, List.append_assoc]; rfl) ?_
    intro spacing level fuel rest _ enough
    simp only [List.length_append] at enough
    rw [← kept]
    have quote (after : List Char) : skipSpace (spacing.lineBreak (level + 1) ++
        (writeString field.1 ++ after)) =
          '"' :: (field.1.toList.flatMap writeChar ++ (['"'] ++ after)) := by
      rw [skipSpace_lineBreak, writeString, List.append_assoc, List.cons_append]
      rfl
    simp only [List.append_assoc, List.cons_append, List.nil_append]
    refine readValue_object (quote _) ?_
    rw [readFields_congr (skipSpace_lineBreak spacing (level + 1) _)]
    exact readFields_write spacing (level + 1) level each (by omega) rest

end ReadsBack

/-- A writable value is read back. -/
theorem Writable.readsBack {value : Json} (writable : Writable value) : ReadsBack value := by
  induction writable with
  | null => exact .null
  | bool value => exact .bool value
  | number exact => exact .number exact
  | string value => exact .string value
  | array _ inductionHypothesis => exact .array inductionHypothesis
  | object _ kept inductionHypothesis => exact .object inductionHypothesis kept

/-- The text of a writable value is JSON text that spells the value, also with
spaces behind it. -/
theorem Writable.ofText?_append {value : Json} (writable : Writable value) (spacing : Spacing)
    {space : List Char} (blank : skipSpace space = []) (ends : EndsNumber space) :
    ofText? (value.text spacing ++ String.ofList space) = some value := by
  have chars : (value.text spacing ++ String.ofList space).toList =
      write spacing 0 value ++ space := by
    rw [text, String.toList_append, String.toList_ofList, String.toList_ofList]
  rw [ofText?, chars, List.length_append,
    writable.readsBack.reads spacing 0 _ space ends (by omega)]
  simp [blank]

end SourceMap.Json

import Mathlib

/-!
# Texts between separators

Joining puts a separator between texts, and splitting takes a text apart at each
separator. These are the facts about the two that mappings texts and written paths
need alike: what is in the parts, that each part is a piece of the whole, and what
more parts or a longer last part do to either side.

Joining what was split always gives the text back. Splitting what was joined gives
the parts back only where no part holds the separator and there is a part at all,
since the empty text is split into one empty part. So the lemmas about splitting a
joined text suppose plain parts, and those about joining alone suppose nothing.
-/

namespace SourceMap

/-- A separator is in no part of a text that is split at it. -/
theorem not_mem_of_mem_splitOn {separator : Char} {text inner : List Char}
    (member : inner ∈ text.splitOn separator) : separator ∉ inner := by
  induction text generalizing inner with
  | nil =>
    obtain rfl := by simpa using member
    simp
  | cons char rest inductionHypothesis =>
    rw [List.splitOn_cons_eq_if_modifyHead] at member
    obtain ⟨first, others, split⟩ := List.exists_cons_of_ne_nil (List.splitOn_ne_nil separator rest)
    rw [split] at inductionHypothesis
    split at member
    · rcases List.mem_cons.mp member with rfl | later
      · simp
      · exact inductionHypothesis (split ▸ later)
    · rename_i different
      rw [split, List.modifyHead_cons] at member
      rcases List.mem_cons.mp member with rfl | later
      · have apart : char ≠ separator := by simpa using different
        intro inside
        rcases List.mem_cons.mp inside with same | further
        · exact apart same.symm
        · exact inductionHypothesis List.mem_cons_self further
      · exact inductionHypothesis (List.mem_cons_of_mem first later)

/-- A text that was joined with others is a part of the whole. -/
theorem infix_intercalate {separator inner : List Char} {texts : List (List Char)}
    (member : inner ∈ texts) : inner <:+: separator.intercalate texts := by
  induction texts with
  | nil => simp at member
  | cons first rest inductionHypothesis =>
    cases rest with
    | nil =>
      obtain rfl := List.mem_singleton.mp member
      simp
    | cons next others =>
      rw [List.intercalate_cons_cons, List.append_assoc]
      rcases List.mem_cons.mp member with rfl | later
      · exact (List.prefix_append _ _).isInfix
      · have further := (inductionHypothesis later).trans (List.suffix_append separator _).isInfix
        exact further.trans (List.suffix_append first _).isInfix

/-- A part between separators is a part of the text. -/
theorem infix_of_mem_splitOn {separator : Char} {text inner : List Char}
    (member : inner ∈ text.splitOn separator) : inner <:+: text := by
  have whole : inner <:+: [separator].intercalate (text.splitOn separator) :=
    infix_intercalate member
  rwa [List.intercalate_splitOn] at whole

/-- Joining puts a separator before each part but the first. -/
theorem intercalate_cons_eq (separator : Char) (part : List Char) (more : List (List Char)) :
    [separator].intercalate (part :: more) = part ++ more.flatMap (separator :: ·) := by
  induction more generalizing part with
  | nil => simp
  | cons next others inductionHypothesis =>
    rw [List.intercalate_cons_cons, inductionHypothesis, List.flatMap_cons]
    simp

/-- Joining adds nothing but separators. -/
theorem of_mem_intercalate {char separator : Char} {texts : List (List Char)}
    (member : char ∈ [separator].intercalate texts) :
    char = separator ∨ ∃ text ∈ texts, char ∈ text := by
  cases texts with
  | nil => simp [List.intercalate_nil] at member
  | cons text more =>
    rw [intercalate_cons_eq, List.mem_append, List.mem_flatMap] at member
    rcases member with inside | ⟨other, listed, inside⟩
    · exact Or.inr ⟨text, List.mem_cons_self, inside⟩
    · rcases List.mem_cons.mp inside with joint | further
      · exact Or.inl joint
      · exact Or.inr ⟨other, List.mem_cons_of_mem text listed, further⟩

/-- Joining more parts adds each of them after a separator. -/
theorem intercalate_append_cons (separator : Char) (parts : List (List Char)) (part : List Char)
    (more : List (List Char)) :
    [separator].intercalate (parts ++ part :: more) =
      [separator].intercalate (parts ++ [part]) ++ more.flatMap (separator :: ·) := by
  cases parts with
  | nil => simp [intercalate_cons_eq]
  | cons first others => simp [intercalate_cons_eq]

/-- Splitting a text that starts without the separator changes its first part.
The start is added to whatever the first part of the rest is, also where that is
empty. -/
theorem splitOn_append_of_not_mem {separator : Char} {start : List Char}
    (plain : separator ∉ start) (rest : List Char) :
    (start ++ rest).splitOn separator = (rest.splitOn separator).modifyHead (start ++ ·) := by
  induction start with
  | nil =>
    obtain ⟨first, others, split⟩ := List.exists_cons_of_ne_nil (List.splitOn_ne_nil separator rest)
    simp [split]
  | cons char tail inductionHypothesis =>
    have plainTail : separator ∉ tail := fun inside => plain (List.mem_cons_of_mem char inside)
    have different : (char == separator) = false := by
      rw [beq_eq_false_iff_ne]
      rintro rfl
      exact plain List.mem_cons_self
    obtain ⟨first, others, split⟩ := List.exists_cons_of_ne_nil (List.splitOn_ne_nil separator rest)
    rw [List.cons_append, List.splitOn_cons_eq_if_modifyHead, different,
      inductionHypothesis plainTail, split]
    simp

/-- Splitting parts that were joined, where the last one goes on. -/
theorem splitOn_intercalate_append {separator : Char} {parts : List (List Char)}
    {last : List Char} (plain : ∀ part ∈ parts, separator ∉ part) (plainLast : separator ∉ last)
    (rest : List Char) :
    ([separator].intercalate (parts ++ [last]) ++ rest).splitOn separator =
      parts ++ (rest.splitOn separator).modifyHead (last ++ ·) := by
  induction parts with
  | nil => simpa using splitOn_append_of_not_mem plainLast rest
  | cons part others inductionHypothesis =>
    have plainPart : separator ∉ part := plain part List.mem_cons_self
    rw [List.cons_append, List.intercalate_cons_of_ne_nil (by simp), List.append_assoc,
      List.append_assoc, List.singleton_append,
      List.splitOn_append_cons_self_of_not_mem plainPart,
      inductionHypothesis fun other member => plain other (List.mem_cons_of_mem part member),
      List.cons_append]

end SourceMap

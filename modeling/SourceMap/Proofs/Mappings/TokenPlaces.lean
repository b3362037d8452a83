import SourceMap.Proofs.Mappings.PrefixSums
import SourceMap.Proofs.Mappings.Writing

/-!
# Where a token stands

A token is what stands in a text between two separators. So a text can be cut just
before a token, and goes on after it with nothing or with a separator. The tokens
of the part before the cut are the earlier ones; and whatever else goes on after
the token, it and the earlier ones stay what they are.

The one difficulty is in lines of blanks. Such a line has no token, but the same
blanks are a token as soon as there is a comma behind them; so the text after a
token decides whether a blank one is there at all, and cutting a line behind a
blank text can make its tokens vanish. `Delimits` and the condition on
`Stands.tokens_assemble` deal with the two sides of it. Blank tokens are never
accepted, so the cut before the first token that is not accepted is always good.
-/

namespace SourceMap
namespace Mappings

/-- A text of whole groups and the start of another one, given by the texts of
its tokens. -/
def assemble (groups texts : List (List Char)) : List Char :=
  [';'].intercalate (groups ++ [[','].intercalate texts])

/-- The separator before a token on its line; the first token has none. -/
def joint (token : Token) : List Char := if token.segment = 0 then [] else [',']

/-- What stands before a token: whole groups, and in the token's own group the
texts of the tokens before it. None of them holds a separator. -/
structure Stands (groups texts : List (List Char)) (before : List Token) (token : Token) :
    Prop where
  line : token.line = groups.length
  segment : token.segment = texts.length
  before : before = tokensFrom 0 groups ++ lineTokens groups.length 0 texts
  plainGroups : ∀ group ∈ groups, ';' ∉ group
  plainTexts : ∀ text ∈ texts ++ [token.text], ';' ∉ text ∧ ',' ∉ text

/-- Whether a text can follow a token and leave it a token: it is empty or
starts with a separator. After a blank token at the start of its line only a
comma does, since without one the line would be blank. -/
structure Delimits (token : Token) (tail : List Char) : Prop where
  ends : tail = [] ∨ tail.head? = some ',' ∨ tail.head? = some ';'
  visible : token.segment = 0 → Blank.isBlankText token.text = true → tail.head? = some ','

/-- A token comes where it can stand in a text: the first of a line after tokens
of other lines, any other one after a token of its own line. -/
structure Follows (before : List Token) (token : Token) : Prop where
  first : token.segment = 0 → ∀ earlier ∈ before, earlier.line ≠ token.line
  further : token.segment ≠ 0 → ∃ earlier last, before = earlier ++ [last] ∧ last.line = token.line

/-- Whether each token has a property after those before it. -/
def Throughout (property : List Token → Token → Prop) (tokens : List Token) : Prop :=
  ∀ before token after, tokens = before ++ token :: after → property before token

/-- The last token and the others can be looked at one after the other. -/
theorem throughout_concat {property : List Token → Token → Prop} {tokens : List Token}
    {last : Token} :
    Throughout property (tokens ++ [last]) ↔
      Throughout property tokens ∧ property tokens last := by
  constructor
  · intro all
    refine ⟨fun before token after split => all before token (after ++ [last]) ?_, all _ _ [] rfl⟩
    rw [split, List.append_assoc, List.cons_append]
  · rintro ⟨others, ofLast⟩ before token after split
    rcases List.eq_nil_or_concat after with rfl | ⟨further, finish, rfl⟩
    · obtain ⟨rfl, same⟩ := List.append_inj' split rfl
      obtain rfl : last = token := by simpa using same
      exact ofLast
    · rw [List.concat_eq_append, ← List.cons_append, ← List.append_assoc] at split
      exact others before token further (List.append_inj' split rfl).1

/-- What is so throughout tokens is so throughout the first ones of them. -/
theorem Throughout.of_append {property : List Token → Token → Prop} {tokens more : List Token}
    (all : Throughout property (tokens ++ more)) : Throughout property tokens := by
  intro before token after split
  refine all before token (after ++ more) ?_
  rw [split, List.append_assoc, List.cons_append]

/-- Where a property is not so throughout tokens, there is a first one that does
not have it. The property may depend on the tokens before, so the earlier ones
have it at their own places. -/
theorem throughout_or_first (property : List Token → Token → Prop) (tokens : List Token) :
    Throughout property tokens ∨ ∃ before token after, tokens = before ++ token :: after ∧
      Throughout property before ∧ ¬property before token := by
  induction tokens using List.reverseRecOn with
  | nil => exact Or.inl fun before token after split => by simp at split
  | append_singleton earlier last inductionHypothesis =>
    rcases inductionHypothesis with all | ⟨before, token, after, split, first, fails⟩
    · by_cases ofLast : property earlier last
      · exact Or.inl (throughout_concat.mpr ⟨all, ofLast⟩)
      · exact Or.inr ⟨earlier, last, [], rfl, all, ofLast⟩
    · refine Or.inr ⟨before, token, after ++ [last], ?_, first, fails⟩
      rw [split, List.append_assoc, List.cons_append]

/-- The tokens of a line stand before and after any of them. -/
theorem exists_of_lineTokens_eq {line start : Nat} {texts : List (List Char)}
    {before after : List Token} {token : Token}
    (split : lineTokens line start texts = before ++ token :: after) :
    ∃ earlier later, texts = earlier ++ token.text :: later ∧ token.line = line ∧
      token.segment = start + earlier.length ∧ before = lineTokens line start earlier := by
  induction texts generalizing start before with
  | nil => simp at split
  | cons text rest inductionHypothesis =>
    rw [lineTokens_cons] at split
    cases before with
    | nil =>
      obtain ⟨rfl, rfl⟩ := by simpa using split
      exact ⟨[], rest, rfl, rfl, rfl, rfl⟩
    | cons first others =>
      obtain ⟨rfl, further⟩ := List.cons.inj split
      obtain ⟨earlier, later, rfl, onLine, number, rfl⟩ := inductionHypothesis further
      refine ⟨text :: earlier, later, rfl, onLine, ?_, rfl⟩
      rw [number, List.length_cons]
      omega

/-- The tokens of groups are on as many lines as there are groups. -/
theorem line_lt_of_mem_tokensFrom {start : Nat} {groups : List (List Char)} {token : Token}
    (member : token ∈ tokensFrom start groups) : token.line < start + groups.length := by
  obtain ⟨⟨group, line⟩, listed, inside⟩ := List.mem_flatMap.mp member
  rw [line_of_mem_groupTokens inside]
  exact List.snd_lt_add_of_mem_zipIdx listed

/-- The tokens of groups stand, group by group, before and after any of them. So a
token has a group of its own, which is not blank, and a place among the parts of
that group; what comes before it is the tokens of the whole groups before its own
and the parts before it. -/
theorem exists_of_tokensFrom_eq {start : Nat} {groups : List (List Char)}
    {before after : List Token} {token : Token}
    (split : tokensFrom start groups = before ++ token :: after) :
    ∃ earlier group later texts more, groups = earlier ++ group :: later ∧
      Blank.isBlankText group = false ∧ group.splitOn ',' = texts ++ token.text :: more ∧
      token.line = start + earlier.length ∧ token.segment = texts.length ∧
      before = tokensFrom start earlier ++ lineTokens (start + earlier.length) 0 texts := by
  induction groups generalizing start before with
  | nil => simp at split
  | cons group rest inductionHypothesis =>
    rw [tokensFrom_cons] at split
    -- The token is in the first group, or it is one of the others.
    have cases : (∃ others, groupTokens start group = before ++ token :: others) ∨
        ∃ others, before = groupTokens start group ++ others ∧
          tokensFrom (start + 1) rest = others ++ token :: after := by
      rcases List.append_eq_append_iff.mp split with ⟨others, same, further⟩ | ⟨others, here, same⟩
      · exact Or.inr ⟨others, same, further⟩
      · cases others with
        | nil => exact Or.inr ⟨[], by simpa using here.symm, by simpa using same.symm⟩
        | cons first others =>
          obtain ⟨rfl, rfl⟩ := List.cons.inj same
          exact Or.inl ⟨others, here⟩
    rcases cases with ⟨others, here⟩ | ⟨others, rfl, further⟩
    · by_cases blank : Blank.isBlankText group = true
      · simp [groupTokens_of_blank start blank] at here
      · have filled : Blank.isBlankText group = false := by simpa using blank
        rw [groupTokens_of_not_blank start filled] at here
        obtain ⟨texts, more, spelled, onLine, number, rfl⟩ := exists_of_lineTokens_eq here
        exact ⟨[], group, rest, texts, more, rfl, filled, spelled, onLine, by simpa using number,
          rfl⟩
    · obtain ⟨earlier, other, later, texts, more, rfl, filled, spelled, onLine, number, rfl⟩ :=
        inductionHypothesis further
      have lines : start + 1 + earlier.length = start + (group :: earlier).length := by
        rw [List.length_cons]
        omega
      refine ⟨group :: earlier, other, later, texts, more, rfl, filled, spelled, ?_, number, ?_⟩
      · rw [onLine, lines]
      · rw [tokensFrom_cons, List.append_assoc, lines]

/-- The tokens of a line go on with those of further texts. -/
theorem lineTokens_append (line start : Nat) (texts more : List (List Char)) :
    lineTokens line start (texts ++ more) =
      lineTokens line start texts ++ lineTokens line (start + texts.length) more := by
  rw [lineTokens, List.zipIdx_append, List.map_append]
  rfl

/-- The tokens of groups go on with those of further groups. -/
theorem tokensFrom_append (start : Nat) (groups more : List (List Char)) :
    tokensFrom start (groups ++ more) =
      tokensFrom start groups ++ tokensFrom (start + groups.length) more := by
  rw [tokensFrom, List.zipIdx_append, List.flatMap_append]
  rfl

/-- A part of a blank text is blank. -/
theorem isBlankText_of_infix {inner text : List Char} (within : inner <:+: text)
    (blank : Blank.isBlankText text = true) : Blank.isBlankText inner = true := by
  rw [Blank.isBlankText, List.all_eq_true] at blank ⊢
  exact fun char member => blank char (within.subset member)

/-- There is no comma in a blank text. -/
theorem comma_not_mem_of_blank {text : List Char} (blank : Blank.isBlankText text = true) :
    ',' ∉ text := by
  intro inside
  rw [Blank.isBlankText, List.all_eq_true] at blank
  have isBlank := blank ',' inside
  revert isBlank
  decide

/-- The start of another group follows whole groups. -/
theorem assemble_append (groups : List (List Char)) (start rest : List Char) :
    [';'].intercalate (groups ++ [start ++ rest]) =
      [';'].intercalate (groups ++ [start]) ++ rest := by
  cases groups with
  | nil => simp
  | cons first others => simp [intercalate_cons_eq]

/-- Every token of a text stands somewhere in it, and what follows it there can
follow it.

Proof: the token is one of a group that is not blank, and its text is a part of
that group between commas. Joining the groups and texts before it, the text
itself and what comes after gives back the whole text, as joining undoes
splitting. -/
theorem exists_stands {text : List Char} {before after : List Token} {token : Token}
    (split : tokens text = before ++ token :: after) :
    ∃ groups texts tail, Stands groups texts before token ∧
      text = assemble groups (texts ++ [token.text]) ++ tail ∧ Delimits token tail := by
  obtain ⟨groups, group, later, texts, more, isGroups, filled, isTexts, line, segment, isBefore⟩ :=
    exists_of_tokensFrom_eq split
  rw [Nat.zero_add] at line isBefore
  have isGroup : group = [','].intercalate (texts ++ [token.text]) ++ more.flatMap (',' :: ·) := by
    rw [← intercalate_append_cons, ← isTexts, List.intercalate_splitOn]
  refine ⟨groups, texts, more.flatMap (',' :: ·) ++ later.flatMap (';' :: ·),
    ⟨line, segment, isBefore, ?_, ?_⟩, ?_, ?_, ?_⟩
  · intro other member
    exact not_mem_of_mem_splitOn (isGroups ▸ List.mem_append_left (group :: later) member)
  · intro other member
    have inGroup : other ∈ group.splitOn ',' := by
      rw [isTexts]
      simp only [List.mem_append, List.mem_cons, List.not_mem_nil, or_false] at member ⊢
      rcases member with earlier | here
      · exact Or.inl earlier
      · exact Or.inr (Or.inl here)
    have plainGroup : ';' ∉ group :=
      not_mem_of_mem_splitOn (isGroups ▸ List.mem_append_right groups List.mem_cons_self)
    exact ⟨fun inside => plainGroup ((infix_of_mem_splitOn inGroup).subset inside),
      not_mem_of_mem_splitOn inGroup⟩
  · have joined : [';'].intercalate (text.splitOn ';') = text := List.intercalate_splitOn ';'
    rw [← joined, isGroups, intercalate_append_cons, isGroup, assemble_append, assemble,
      List.append_assoc]
  · cases more with
    | nil => cases later <;> simp
    | cons next others => simp
  · intro first blank
    obtain rfl : texts = [] := List.eq_nil_of_length_eq_zero (segment ▸ first)
    cases more with
    | nil => simp [isGroup, blank] at filled
    | cons next others => simp

/-- What follows a token starts with the rest of its line, in which a separator
comes first if there is anything. -/
theorem Delimits.exists_split {token : Token} {tail : List Char} (delimits : Delimits token tail) :
    ∃ rest others more, tail.splitOn ';' = rest :: others ∧ rest.splitOn ',' = [] :: more ∧
      (tail.head? = some ',' → ',' ∈ rest) := by
  cases tail with
  | nil => exact ⟨[], [], [], by simp, by simp, by simp⟩
  | cons char further =>
    obtain rfl | rfl : char = ',' ∨ char = ';' := by simpa using delimits.ends
    · obtain ⟨rest, others, split⟩ := List.exists_cons_of_ne_nil (List.splitOn_ne_nil ';' further)
      exact ⟨',' :: rest, others, rest.splitOn ',',
        by simp [List.splitOn_cons_eq_if_modifyHead, split],
        by simp [List.splitOn_cons_eq_if_modifyHead], by simp⟩
    · exact ⟨[], further.splitOn ';', [], by simp [List.splitOn_cons_eq_if_modifyHead], by simp,
        by simp⟩

namespace Stands

variable {groups texts : List (List Char)} {before : List Token} {token : Token}

/-- Up to the token there is no line separator on its line. -/
theorem not_mem_line (stands : Stands groups texts before token) :
    ';' ∉ [','].intercalate (texts ++ [token.text]) := by
  intro inside
  rcases of_mem_intercalate inside with different | ⟨text, listed, within⟩
  · exact absurd different (by decide)
  · exact (stands.plainTexts text listed).1 within

/-- Up to just before the token there is no line separator on its line either. -/
theorem not_mem_start (stands : Stands groups texts before token) :
    ';' ∉ [','].intercalate texts := by
  intro inside
  rcases of_mem_intercalate inside with different | ⟨text, listed, within⟩
  · exact absurd different (by decide)
  · exact (stands.plainTexts text (List.mem_append_left _ listed)).1 within

/-- The token and the earlier ones stay what they are, however the text goes on
after it. -/
theorem tokens_append (stands : Stands groups texts before token) {tail : List Char}
    (delimits : Delimits token tail) :
    ∃ after, tokens (assemble groups (texts ++ [token.text]) ++ tail) =
      before ++ token :: after := by
  obtain ⟨rest, others, more, tailSplit, restSplit, comma⟩ := delimits.exists_split
  have plainTexts : ∀ text ∈ texts, ',' ∉ text := fun text listed =>
    (stands.plainTexts text (List.mem_append_left _ listed)).2
  have plainToken : ',' ∉ token.text := (stands.plainTexts token.text (by simp)).2
  have lineSplit : ([','].intercalate (texts ++ [token.text]) ++ rest).splitOn ',' =
      texts ++ token.text :: more := by
    rw [splitOn_intercalate_append plainTexts plainToken, restSplit]
    simp
  have filled : Blank.isBlankText ([','].intercalate (texts ++ [token.text]) ++ rest) = false := by
    by_contra notFilled
    have blank : Blank.isBlankText ([','].intercalate (texts ++ [token.text]) ++ rest) = true := by
      simpa using notFilled
    -- Without a comma the token is alone on its line, and blank; then one has to follow it.
    have noComma := comma_not_mem_of_blank blank
    rw [List.splitOn_eq_singleton noComma] at lineSplit
    obtain ⟨alone, _⟩ : texts = [] ∧ more = [] := by
      have counted := congrArg List.length lineSplit
      simp only [List.length_append, List.length_cons, List.length_nil] at counted
      exact ⟨List.eq_nil_of_length_eq_zero (by omega), List.eq_nil_of_length_eq_zero (by omega)⟩
    subst alone
    have blankToken := isBlankText_of_infix (List.prefix_append _ rest).isInfix blank
    have follows := delimits.visible stands.segment (by simpa using blankToken)
    exact noComma (List.mem_append_right _ (comma follows))
  obtain ⟨line, segment, text⟩ := token
  obtain rfl : line = groups.length := stands.line
  obtain rfl : segment = texts.length := stands.segment
  refine ⟨lineTokens groups.length (texts.length + 1) more ++ tokensFrom (groups.length + 1) others,
    ?_⟩
  rw [tokens, assemble, splitOn_intercalate_append stands.plainGroups stands.not_mem_line,
    tailSplit, List.modifyHead_cons, tokensFrom_append, tokensFrom_cons, Nat.zero_add,
    groupTokens_of_not_blank _ filled, lineSplit, lineTokens_append, lineTokens_cons,
    Nat.zero_add, stands.before]
  simp

/-- Where no text before the token on its line is blank, cutting the text just
before the token leaves the earlier ones. -/
theorem tokens_assemble (stands : Stands groups texts before token)
    (visible : ∀ text ∈ texts, Blank.isBlankText text = false) :
    tokens (assemble groups texts) = before := by
  have split := splitOn_intercalate_append stands.plainGroups stands.not_mem_start []
  rw [List.append_nil, List.splitOn_nil, List.modifyHead_cons, List.append_nil] at split
  have line : groupTokens groups.length ([','].intercalate texts) =
      lineTokens groups.length 0 texts := by
    by_cases nothing : texts = []
    · subst nothing
      rfl
    · obtain ⟨text, listed⟩ := List.exists_mem_of_ne_nil texts nothing
      have filled : Blank.isBlankText ([','].intercalate texts) = false := by
        by_contra notFilled
        have blank := isBlankText_of_infix (infix_intercalate listed) (by simpa using notFilled)
        simp [visible text listed] at blank
      rw [groupTokens_of_not_blank _ filled, List.splitOn_intercalate ',' (fun other member =>
        (stands.plainTexts other (List.mem_append_left _ member)).2) nothing]
  rw [tokens, assemble, split, tokensFrom_append, Nat.zero_add, tokensFrom_cons, line,
    tokensFrom_nil, List.append_nil, stands.before]

/-- The text up to a token is the one before it, a comma if it is not the first
of its line, and its own. -/
theorem assemble_concat (stands : Stands groups texts before token) :
    assemble groups (texts ++ [token.text]) =
      assemble groups texts ++ joint token ++ token.text := by
  have onLine : [','].intercalate (texts ++ [token.text]) =
      [','].intercalate texts ++ (joint token ++ token.text) := by
    rw [joint, stands.segment]
    cases texts with
    | nil => simp
    | cons text others => simp [intercalate_cons_eq]
  rw [assemble, onLine, assemble_append, assemble, List.append_assoc]

/-- What stands before a token is what it can come after. -/
theorem follows (stands : Stands groups texts before token) : Follows before token := by
  constructor
  · intro first earlier member
    obtain rfl : texts = [] := List.eq_nil_of_length_eq_zero (stands.segment ▸ first)
    rw [stands.before, lineTokens_nil, List.append_nil] at member
    have earlierLine := line_lt_of_mem_tokensFrom member
    rw [Nat.zero_add, ← stands.line] at earlierLine
    exact Nat.ne_of_lt earlierLine
  · intro further
    rw [stands.segment] at further
    rcases List.eq_nil_or_concat texts with rfl | ⟨earlier, last, rfl⟩
    · exact absurd rfl further
    · refine ⟨tokensFrom 0 groups ++ lineTokens groups.length 0 earlier,
        ⟨groups.length, earlier.length, last⟩, ?_, stands.line.symm⟩
      rw [stands.before, List.concat_eq_append, lineTokens_append, lineTokens_cons, lineTokens_nil,
        Nat.zero_add, List.append_assoc]

end Stands

/-- Every token of a text comes where it can stand. -/
theorem throughout_follows_tokens (text : List Char) : Throughout Follows (tokens text) := by
  intro before token after split
  obtain ⟨groups, texts, tail, stands, _⟩ := exists_stands split
  exact stands.follows

end Mappings
end SourceMap

import SourceMap.Proofs.Vlq.Grammar

/-!
# The first defect of a value

A value is read from left to right, and reading stops at the first thing that is
wrong: there is no digit at all, a character is none, the data add up to more than
an exact integer, or the text ends behind a digit that announces another one. As
long as the digits that are read stay at places of finite weight, a text either
starts with a word of the grammar or has such a first defect, and what is read is
the value of the word or the fault of the defect.

`Pending` is what has been read of a value that is not finished: digits that
announce another one, with their sum. It is the state of the reader without the
reader, and both words and defects are a chain with something behind it.
`Outlasts` says that a chain takes up all places of finite weight with a digit to
follow; it is the condition under which one value is too long, and a case of
`HasLongValue`.
-/

namespace SourceMap.Vlq

/-- Whether all characters are digits that announce another one, and what their
data add up to, the first digit being the least significant. -/
inductive Pending : List Char → Nat → Prop
  | nil : Pending [] 0
  | cons {char : Char} {digit : Nat} {rest : List Char} {later : Nat} :
      digitValue? char = some digit → 32 ≤ digit → Pending rest later →
      Pending (char :: rest) (digit % 32 + 32 * later)

/-- What is wrong first with the value at the start of a text. Behind digits
that announce another one and add up to an exact integer, the text ends or goes
on with a character that cannot follow. -/
inductive FirstDefect : List Char → VlqDefect → Prop
  | empty : FirstDefect [] .empty
  | invalidCharacter {chain rest : List Char} {sum : Nat} {char : Char} :
      Pending chain sum → sum < Number.exactBound → digitValue? char = none →
      FirstDefect (chain ++ char :: rest) (.invalidCharacter char)
  | tooLarge {chain rest : List Char} {sum : Nat} {char : Char} {digit : Nat} :
      Pending chain sum → sum < Number.exactBound → digitValue? char = some digit →
      Number.exactBound ≤ sum + digit % 32 * 32 ^ chain.length →
      FirstDefect (chain ++ char :: rest) .tooLarge
  | incomplete {chain : List Char} {sum : Nat} :
      Pending chain sum → sum < Number.exactBound → chain ≠ [] → FirstDefect chain .incomplete

/-- Whether more digits are read for the value at the start of a text than there
are places of finite weight: so many announce another one and add up to an exact
integer, and one follows. -/
def Outlasts (text : List Char) : Prop :=
  ∃ chain sum next rest, text = chain ++ next :: rest ∧ chain.length = endlessPlace ∧
    Pending chain sum ∧ sum < Number.exactBound ∧ (digitValue? next).isSome = true

/-- The value of a text with no more characters than there are places of finite
weight does not outlast them. -/
theorem not_outlasts_of_length_le {text : List Char} (fits : text.length ≤ endlessPlace) :
    ¬Outlasts text := by
  rintro ⟨chain, sum, next, rest, rfl, length, _⟩
  rw [List.length_append, length, List.length_cons] at fits
  omega

namespace Pending

variable {chain tail : List Char} {sum later : Nat}

/-- Each digit of a chain announces another one. -/
theorem continues (pending : Pending chain sum) : ∀ char ∈ chain, Continues char := by
  induction pending with
  | nil => simp
  | cons isDigit announces _ inductionHypothesis =>
    exact List.forall_mem_cons.mpr ⟨⟨_, isDigit, announces⟩, inductionHypothesis⟩

/-- Further digits weigh more by the places before them. -/
theorem append (pending : Pending chain sum) (further : Pending tail later) :
    Pending (chain ++ tail) (sum + later * 32 ^ chain.length) := by
  induction pending with
  | nil => simpa using further
  | @cons char digit rest inner isDigit announces _ inductionHypothesis =>
    have split : digit % 32 + 32 * inner + later * 32 ^ (char :: rest).length =
        digit % 32 + 32 * (inner + later * 32 ^ rest.length) := by
      rw [List.length_cons]
      ring
    rw [split]
    exact .cons isDigit announces inductionHypothesis

/-- One more digit that announces another one. -/
theorem concat (pending : Pending chain sum) {char : Char} {digit : Nat}
    (isDigit : digitValue? char = some digit) (announces : 32 ≤ digit) :
    Pending (chain ++ [char]) (sum + digit % 32 * 32 ^ chain.length) :=
  pending.append (.cons isDigit announces .nil)

/-- A part of a chain at its start is a chain of no greater sum, and so is what
follows it. -/
theorem exists_of_append (pending : Pending (chain ++ tail) sum) :
    ∃ first later, Pending chain first ∧ Pending tail later ∧ first ≤ sum := by
  induction chain generalizing sum with
  | nil => exact ⟨0, sum, .nil, pending, Nat.zero_le _⟩
  | cons char rest inductionHypothesis =>
    rcases pending with _ | ⟨isDigit, announces, further⟩
    obtain ⟨first, later, inner, outer, small⟩ := inductionHypothesis further
    exact ⟨_, later, .cons isDigit announces inner, outer, by omega⟩

/-- A last digit behind a chain makes it a value. -/
theorem chained (pending : Pending chain sum) {char : Char} {digit : Nat}
    (isDigit : digitValue? char = some digit) (ends : digit < 32) :
    Chained (chain ++ [char]) (sum + digit * 32 ^ chain.length) := by
  induction pending with
  | nil => simpa using Chained.last isDigit ends
  | @cons first value rest inner firstIsDigit announces _ inductionHypothesis =>
    have split : value % 32 + 32 * inner + digit * 32 ^ (first :: rest).length =
        value % 32 + 32 * (inner + digit * 32 ^ rest.length) := by
      rw [List.length_cons]
      ring
    rw [split]
    exact .more firstIsDigit announces inductionHypothesis

/-- Digits that announce another one are added up from a place on, and reading
goes on behind them. -/
theorem readNat_append (pending : Pending chain sum) {place number : Nat}
    (finite : place + chain.length ≤ endlessPlace)
    (exact : number + sum * 32 ^ place < Number.exactBound) (rest : List Char) :
    readNat place (some number) (chain ++ rest) =
      readNat (place + chain.length) (some (number + sum * 32 ^ place)) rest := by
  induction pending generalizing place number with
  | nil => simp
  | @cons char digit tail later isDigit announces _ inductionHypothesis =>
    have split : number + (digit % 32 + 32 * later) * 32 ^ place =
        number + digit % 32 * 32 ^ place + later * 32 ^ (place + 1) := by ring
    rw [List.length_cons] at finite
    rw [split] at exact ⊢
    rw [List.cons_append, readNat_digit isDigit (by omega) (by omega), if_neg (by omega),
      inductionHypothesis (by omega) exact, List.length_cons]
    congr 1
    omega

/-- Behind a chain from the start of a text reading stands at its length. -/
theorem readNat_start (pending : Pending chain sum) (finite : chain.length ≤ endlessPlace)
    (exact : sum < Number.exactBound) (rest : List Char) :
    readNat 0 (some 0) (chain ++ rest) = readNat chain.length (some sum) rest := by
  have atStart : 0 + chain.length ≤ endlessPlace := by simpa using finite
  have fromZero : 0 + sum * 32 ^ 0 < Number.exactBound := by simpa using exact
  simpa using pending.readNat_append atStart fromZero rest

/-- A chain at the start of a text stays at places of finite weight, if the
value does not outlast them. -/
theorem length_le (pending : Pending chain sum) (exact : sum < Number.exactBound)
    {rest : List Char} (short : ¬Outlasts (chain ++ rest)) : chain.length ≤ endlessPlace := by
  by_contra beyond
  -- The digits at the places of finite weight are a chain with a digit behind it.
  have count : (chain.take endlessPlace).length = endlessPlace :=
    List.length_take_of_le (by omega)
  obtain ⟨next, others, follows⟩ : ∃ next others, chain.drop endlessPlace = next :: others := by
    apply List.exists_cons_of_ne_nil
    rw [Ne, List.drop_eq_nil_iff]
    omega
  have split : chain = chain.take endlessPlace ++ next :: others := by
    rw [← follows, List.take_append_drop]
  obtain ⟨first, later, before, after, small⟩ := (split ▸ pending).exists_of_append
  rcases after with _ | ⟨isDigit, _, _⟩
  refine short ⟨chain.take endlessPlace, first, next, others ++ rest, ?_, count, before, by omega,
    by simp [isDigit]⟩
  rw [← List.cons_append, ← List.append_assoc, ← split]

/-- A chain that a digit follows ends before the last place of finite weight. -/
theorem length_lt (pending : Pending chain sum) (exact : sum < Number.exactBound) {char : Char}
    {digit : Nat} (isDigit : digitValue? char = some digit) {rest : List Char}
    (short : ¬Outlasts (chain ++ char :: rest)) : chain.length < endlessPlace := by
  rcases (pending.length_le exact short).lt_or_eq with less | same
  · exact less
  · exact absurd ⟨chain, sum, char, rest, rfl, same, pending, exact, by simp [isDigit]⟩ short

end Pending

/-- A value that outlasts the places of finite weight has more digits than there
are of them. -/
theorem Outlasts.hasLongValue {text : List Char} (outlasts : Outlasts text) :
    HasLongValue text := by
  obtain ⟨chain, sum, next, rest, rfl, length, pending, _, isDigit⟩ := outlasts
  have regroup : chain ++ next :: rest = (chain ++ [next]) ++ rest := by simp
  refine ⟨chain, next, length, pending.continues, isDigit, ?_⟩
  rw [regroup]
  exact (List.prefix_append (chain ++ [next]) rest).isInfix

/-- A value is a chain with a last digit behind it. -/
theorem Chained.exists_pending {word : List Char} {number : Nat} (chained : Chained word number) :
    ∃ chain sum char digit, word = chain ++ [char] ∧ Pending chain sum ∧
      digitValue? char = some digit ∧ digit < 32 ∧ number = sum + digit * 32 ^ chain.length := by
  induction chained with
  | @last char digit isDigit ends =>
    exact ⟨[], 0, char, digit, rfl, .nil, isDigit, ends, by simp⟩
  | @more char digit rest later isDigit announces _ inductionHypothesis =>
    obtain ⟨chain, sum, last, value, rfl, pending, lastIsDigit, ends, rfl⟩ := inductionHypothesis
    refine ⟨char :: chain, digit % 32 + 32 * sum, last, value, rfl,
      .cons isDigit announces pending, lastIsDigit, ends, ?_⟩
    rw [List.length_cons]
    ring

/-- A word of the grammar is read as its value, if the value does not outlast
the places of finite weight, and what follows it is left. -/
theorem Chained.read_append {word rest : List Char} {number : Nat} (chained : Chained word number)
    (exact : number < Number.exactBound) (short : ¬Outlasts (word ++ rest)) :
    read (word ++ rest) = .ok ⟨valueOf (some number), word.length, rest⟩ := by
  obtain ⟨chain, sum, char, digit, rfl, pending, isDigit, ends, rfl⟩ := chained.exists_pending
  have data : digit % 32 = digit := Nat.mod_eq_of_lt ends
  rw [List.append_assoc, List.singleton_append] at short ⊢
  have finite := pending.length_lt (by omega) isDigit short
  rw [read, pending.readNat_start finite.le (by omega),
    readNat_digit isDigit finite (by rwa [data]), if_pos ends, data, List.length_append]
  rfl

/-- A text with a first defect is refused with it, if the value does not outlast
the places of finite weight. -/
theorem FirstDefect.read_eq {text : List Char} {defect : VlqDefect}
    (first : FirstDefect text defect) (short : ¬Outlasts text) : read text = .error defect := by
  rw [read]
  cases first with
  | empty => rfl
  | invalidCharacter pending exact isNone =>
    rw [pending.readNat_start (pending.length_le exact short) exact]
    simp [readNat, isNone, Except.map]
  | @tooLarge chain rest sum char digit pending exact isDigit beyond =>
    have finite := pending.length_lt exact isDigit short
    have refused : addDigit chain.length (digit % 32) (some sum) = .error .tooLarge := by
      simp [addDigit, finite, Nat.pow_eq, not_lt.mpr beyond]
    rw [pending.readNat_start finite.le exact]
    simp [readNat, isDigit, refused, Except.map]
  | incomplete pending exact filled =>
    rw [← List.append_nil text] at short
    have start := pending.readNat_start (pending.length_le exact short) exact []
    rw [List.append_nil] at start
    rw [start]
    simp [readNat, filled, Except.map]

/-- Behind a chain a text goes on to a word of the grammar or to a first defect.

Proof: by induction on the text behind the chain. At its end the chain is
incomplete; a character that is no digit, or a digit that makes the sum too
large, is a defect; a digit that announces no other one ends a word, and any
other digit makes the chain longer. -/
theorem Pending.word_or_defect (rest : List Char) {chain : List Char} {sum : Nat}
    (pending : Pending chain sum) (exact : sum < Number.exactBound) :
    (∃ word left number, chain ++ rest = word ++ left ∧ Chained word number ∧
      number < Number.exactBound) ∨ ∃ defect, FirstDefect (chain ++ rest) defect := by
  -- By induction on what is unread; the chain before it takes in each digit that passes.
  induction rest generalizing chain sum with
  | nil =>
    rw [List.append_nil]
    by_cases nothing : chain = []
    · subst nothing
      exact Or.inr ⟨.empty, .empty⟩
    · exact Or.inr ⟨.incomplete, .incomplete pending exact nothing⟩
  | cons char rest inductionHypothesis =>
    have regroup : chain ++ char :: rest = (chain ++ [char]) ++ rest := by simp
    cases isDigit : digitValue? char with
    | none => exact Or.inr ⟨_, .invalidCharacter pending exact isDigit⟩
    | some digit =>
      by_cases within : sum + digit % 32 * 32 ^ chain.length < Number.exactBound
      · by_cases ends : digit < 32
        · rw [Nat.mod_eq_of_lt ends] at within
          exact Or.inl ⟨chain ++ [char], rest, _, regroup, pending.chained isDigit ends, within⟩
        · rw [regroup]
          exact inductionHypothesis (pending.concat isDigit (not_lt.mp ends)) within
      · exact Or.inr ⟨.tooLarge, .tooLarge pending exact isDigit (not_lt.mp within)⟩

/-- A text starts with a word of the grammar or has a first defect. -/
theorem word_or_defect (text : List Char) :
    (∃ word rest number, text = word ++ rest ∧ Chained word number ∧
      number < Number.exactBound) ∨ ∃ defect, FirstDefect text defect :=
  Pending.nil.word_or_defect text (by decide)

variable {text : List Char}

/-- One value is read exactly from a text that starts with a word of the
grammar. The word is determined by the text, so the value and the rest are too. -/
theorem read_eq_ok_iff_word (short : ¬Outlasts text) {reading : Reading} :
    read text = .ok reading ↔ ∃ word rest number, text = word ++ rest ∧ Chained word number ∧
      number < Number.exactBound ∧ reading = ⟨valueOf (some number), word.length, rest⟩ := by
  constructor
  · intro success
    rcases word_or_defect text with ⟨word, rest, number, rfl, chained, exact⟩ | ⟨defect, first⟩
    · have read := chained.read_append exact short
      exact ⟨word, rest, number, rfl, chained, exact, Except.ok.inj (success.symm.trans read)⟩
    · cases success.symm.trans (first.read_eq short)
  · rintro ⟨word, rest, number, rfl, chained, exact, rfl⟩
    exact chained.read_append exact short

/-- A text is refused exactly if it has a first defect, and with that defect. -/
theorem read_eq_error_iff (short : ¬Outlasts text) {defect : VlqDefect} :
    read text = .error defect ↔ FirstDefect text defect := by
  constructor
  · intro failed
    rcases word_or_defect text with ⟨word, rest, number, rfl, chained, exact⟩ | ⟨other, first⟩
    · cases failed.symm.trans (chained.read_append exact short)
    · obtain rfl := Except.error.inj (failed.symm.trans (first.read_eq short))
      exact first
  · intro first
    exact first.read_eq short

end SourceMap.Vlq

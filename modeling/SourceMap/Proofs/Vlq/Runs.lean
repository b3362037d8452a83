import SourceMap.Proofs.Vlq.Defects

/-!
# Runs of words

No word of the grammar is the start of another one, so a run can be cut into words
in one way at most. Reading cuts it in that way, from left to right, and yields
the values of the words; where the rest of the run does not start with a word,
reading ends with the first defect of that rest. So without long values reading
accepts just the runs that spell integers, and finds these.

The condition comes in two strengths. `RunOutlasts` says that reading really comes
to a value that is too long, behind words that it has read, and is what the laws
need. `HasLongValue` looks at the text alone and is what a claim about a mappings
text assumes; it follows from the other, so its absence is the stronger
assumption. Both are void for runs of up to 205 characters.
-/

namespace SourceMap.Vlq

/-- Whether characters are a word of the grammar: the digits of one value, each
but the last announcing another one, whose data add up to an exact integer. -/
def IsWord (chars : List Char) : Prop := ∃ number < Number.exactBound, Chained chars number

/-- The value of a number that holds a sign in its lowest bit and a magnitude
above it. Only a magnitude other than zero is negated. -/
def signed (number : Nat) : Number :=
  if number % 2 = 1 ∧ number / 2 ≠ 0 then -Number.ofNat (number / 2) else .ofNat (number / 2)

/-- Whether characters are a word of the grammar, and its value. -/
def Means (word : List Char) (value : Number) : Prop :=
  ∃ number < Number.exactBound, Chained word number ∧ value = signed number

/-- Whether, behind words at the start of a run, the next value outlasts the
places of finite weight. -/
def RunOutlasts (run : List Char) : Prop :=
  ∃ (words : List (List Char)) (rest : List Char), run = words.flatten ++ rest ∧
    (∀ word ∈ words, IsWord word) ∧ Outlasts rest

/-- No value of a run with no more characters than there are places of finite
weight outlasts them. -/
theorem not_runOutlasts_of_length_le {run : List Char} (fits : run.length ≤ endlessPlace) :
    ¬RunOutlasts run := by
  rintro ⟨words, rest, rfl, _, outlasts⟩
  rw [List.length_append] at fits
  exact not_outlasts_of_length_le (by omega) outlasts

/-- A run whose values outlast the places of finite weight has a value with more
digits. -/
theorem RunOutlasts.hasLongValue {run : List Char} (outlasts : RunOutlasts run) :
    HasLongValue run := by
  obtain ⟨words, rest, rfl, _, beyond⟩ := outlasts
  exact beyond.hasLongValue.of_infix (List.suffix_append words.flatten rest).isInfix

/-- The digits of a value mean its sign and its magnitude. -/
theorem number_valueOf (number : Nat) : (valueOf (some number)).number = signed number := by
  by_cases negative : number % 2 = 1 ∧ number / 2 ≠ 0
  · simp only [valueOf, signed, if_pos negative]
    rfl
  · simp only [valueOf, signed, if_neg negative]
    rfl

/-- The sign and the magnitude are those of the integer whose sign is in the
lowest bit. -/
theorem signed_eq (number : Nat) : signed number = .ofInt (unfoldSign number) := by
  rw [← number_valueOf, number_valueOf_some]

/-- Only a magnitude other than zero gets a sign, so no digits spell the
negative of zero. -/
theorem valueOf_ne_minusZero (spelled : Option Nat) : valueOf spelled ≠ .minusZero := by
  cases spelled with
  | none => nofun
  | some number =>
    by_cases negative : number % 2 = 1 ∧ number / 2 ≠ 0
    · simp only [valueOf, if_pos negative]
      intro same
      exact negative.2 (Value.signed.inj same).2
    · simp only [valueOf, if_neg negative]
      nofun

/-- A word that means a value is a word. -/
theorem Means.isWord {word : List Char} {value : Number} (means : Means word value) :
    IsWord word := by
  obtain ⟨number, exact, chained, _⟩ := means
  exact ⟨number, exact, chained⟩

/-- A word means a value. -/
theorem IsWord.exists_means {word : List Char} (isWord : IsWord word) :
    ∃ value, Means word value := by
  obtain ⟨number, exact, chained⟩ := isWord
  exact ⟨signed number, number, exact, chained, rfl⟩

/-- A word has at least one digit. -/
theorem IsWord.ne_nil {word : List Char} (isWord : IsWord word) : word ≠ [] := by
  obtain ⟨_, _, chained⟩ := isWord
  exact List.ne_nil_of_length_pos chained.length_pos

/-- Words mean values, one each. -/
theorem exists_forall₂_means {words : List (List Char)} (each : ∀ word ∈ words, IsWord word) :
    ∃ values, List.Forall₂ Means words values := by
  induction words with
  | nil => exact ⟨[], .nil⟩
  | cons word rest inductionHypothesis =>
    obtain ⟨value, means⟩ := (each word List.mem_cons_self).exists_means
    obtain ⟨values, later⟩ := inductionHypothesis fun other member =>
      each other (List.mem_cons_of_mem word member)
    exact ⟨value :: values, .cons means later⟩

/-- What means values is a word. -/
theorem isWord_of_forall₂_means {words : List (List Char)} {values : List Number}
    (means : List.Forall₂ Means words values) : ∀ word ∈ words, IsWord word := by
  induction means with
  | nil => simp
  | cons first _ inductionHypothesis =>
    intro word member
    rcases List.mem_cons.mp member with rfl | later
    · exact first.isWord
    · exact inductionHypothesis word later

/-- Of two values at the start of one text the digits are the same. The last
digit of a value is its first that announces no other one, so both values end at
the same place. -/
theorem Chained.eq_of_append_eq {word other rest left : List Char} {number value : Nat}
    (chained : Chained word number) (again : Chained other value)
    (same : word ++ rest = other ++ left) : word = other ∧ rest = left := by
  induction chained generalizing other value with
  | @last char digit isDigit ends =>
    rcases again with ⟨_, _⟩ | ⟨otherIsDigit, announces, _⟩
    · obtain ⟨rfl, rfl⟩ := by simpa using same
      exact ⟨rfl, rfl⟩
    · obtain ⟨rfl, _⟩ := by simpa using same
      obtain rfl := Option.some.inj (isDigit.symm.trans otherIsDigit)
      omega
  | @more char digit tail later isDigit announces _ inductionHypothesis =>
    rcases again with ⟨otherIsDigit, ends⟩ | ⟨otherIsDigit, _, further⟩
    · obtain ⟨rfl, _⟩ := by simpa using same
      obtain rfl := Option.some.inj (isDigit.symm.trans otherIsDigit)
      omega
    · rw [List.cons_append, List.cons_append, List.cons.injEq] at same
      obtain ⟨rfl, same⟩ := same
      obtain ⟨rfl, rfl⟩ := inductionHypothesis further same
      exact ⟨rfl, rfl⟩

/-- A run is cut into words in one way only.

Proof: by induction on the words. The first words of the two cuts start one
text, so they are the same, and what is left of the text is cut by the other
words. -/
theorem words_unique {words others : List (List Char)} (each : ∀ word ∈ words, IsWord word)
    (eachOther : ∀ word ∈ others, IsWord word) (same : words.flatten = others.flatten) :
    words = others := by
  induction words generalizing others with
  | nil =>
    cases others with
    | nil => rfl
    | cons other rest =>
      have filled := (eachOther other List.mem_cons_self).ne_nil
      simp [filled] at same
  | cons word rest inductionHypothesis =>
    cases others with
    | nil =>
      have filled := (each word List.mem_cons_self).ne_nil
      simp [filled] at same
    | cons other left =>
      obtain ⟨_, _, chained⟩ := each word List.mem_cons_self
      obtain ⟨_, _, again⟩ := eachOther other List.mem_cons_self
      rw [List.flatten_cons, List.flatten_cons] at same
      obtain ⟨rfl, later⟩ := chained.eq_of_append_eq again same
      rw [inductionHypothesis (fun next member => each next (List.mem_cons_of_mem word member))
        (fun next member => eachOther next (List.mem_cons_of_mem word member)) later]

/-- A text consists of words and a rest that is empty or has a first defect. -/
theorem exists_words (run : List Char) :
    ∃ (words : List (List Char)) (rest : List Char), run = words.flatten ++ rest ∧
      (∀ word ∈ words, IsWord word) ∧
      (rest = [] ∨ rest ≠ [] ∧ ∃ defect, FirstDefect rest defect) := by
  induction length : run.length using Nat.strong_induction_on generalizing run with
  | _ count inductionHypothesis =>
    by_cases nothing : run = []
    · exact ⟨[], [], by simp [nothing], by simp, Or.inl rfl⟩
    rcases word_or_defect run with ⟨word, left, number, rfl, chained, exact⟩ | ⟨defect, first⟩
    · have shorter : left.length < count := by
        have digits := chained.length_pos
        rw [List.length_append] at length
        omega
      obtain ⟨words, rest, split, each, ends⟩ := inductionHypothesis _ shorter left rfl
      refine ⟨word :: words, rest, by rw [split, List.flatten_cons, List.append_assoc], ?_, ends⟩
      intro other member
      rcases List.mem_cons.mp member with rfl | later
      · exact ⟨number, exact, chained⟩
      · exact each other later
    · exact ⟨[], run, by simp, by simp, Or.inr ⟨nothing, defect, first⟩⟩

/-- A text that is not empty is refused if its first value is. -/
theorem readAll_of_error {run : List Char} {defect : VlqDefect} (filled : run ≠ [])
    (failed : read run = .error defect) : readAll run = .error defect := by
  obtain ⟨char, tail, rfl⟩ := List.exists_cons_of_ne_nil filled
  rw [readAll, readValues]
  split
  · rename_i other here
    exact congrArg Except.error (Except.error.inj (here.symm.trans failed))
  · rename_i reading here
    cases here.symm.trans failed

/-- Words at the start of a run are read as what they mean, and then the rest of
the run is read. -/
theorem readAll_append {words : List (List Char)} {values : List Number} {rest : List Char}
    (means : List.Forall₂ Means words values) (short : ¬RunOutlasts (words.flatten ++ rest)) :
    readAll (words.flatten ++ rest) = (readAll rest).map (values ++ ·) := by
  induction means with
  | nil =>
    rw [List.flatten_nil, List.nil_append]
    cases readAll rest <;> rfl
  | @cons word value words values first _ inductionHypothesis =>
    have isWord := first.isWord
    obtain ⟨number, exact, chained, rfl⟩ := first
    rw [List.flatten_cons, List.append_assoc] at short ⊢
    have shortFirst : ¬Outlasts (word ++ (words.flatten ++ rest)) := fun outlasts =>
      short ⟨[], _, rfl, by simp, outlasts⟩
    have shortRest : ¬RunOutlasts (words.flatten ++ rest) := by
      rintro ⟨before, left, split, each, outlasts⟩
      refine short ⟨word :: before, left, by simp [split], ?_, outlasts⟩
      intro other member
      rcases List.mem_cons.mp member with rfl | later
      · exact isWord
      · exact each other later
    rw [readAll_of_read (chained.read_append exact shortFirst), inductionHypothesis shortRest,
      number_valueOf]
    cases readAll rest <;> rfl

variable {run : List Char}

/-- A run is read exactly if it is made of words, at least one, and as the values
that they mean. It may not go on for too long: past the places of finite weight a
word is read as undefined, whatever it means.

Proof: every run starts with words and ends with something that is no word.
Reading goes through the words, and succeeds only if nothing is left after them. -/
theorem readRun_eq_ok_iff_words (short : ¬RunOutlasts run) {values : List Number} :
    readRun run = .ok values ↔ ∃ words : List (List Char), words ≠ [] ∧ words.flatten = run ∧
      List.Forall₂ Means words values := by
  constructor
  · intro success
    rw [readRun_eq] at success
    split at success
    · cases success
    · rename_i filled
      obtain ⟨words, rest, rfl, each, ends⟩ := exists_words run
      obtain ⟨meant, means⟩ := exists_forall₂_means each
      rw [readAll_append means short] at success
      rcases ends with rfl | ⟨left, defect, first⟩
      · rw [readAll_nil] at success
        obtain rfl : meant = values := by simpa [Except.map] using success
        refine ⟨words, ?_, by simp, means⟩
        rintro rfl
        exact filled rfl
      · have shortRest : ¬Outlasts rest := fun outlasts => short ⟨words, rest, rfl, each, outlasts⟩
        rw [readAll_of_error left (first.read_eq shortRest)] at success
        cases success
  · rintro ⟨words, inhabited, rfl, means⟩
    obtain ⟨word, others, rfl⟩ := List.exists_cons_of_ne_nil inhabited
    have filled : (word :: others).flatten ≠ [] := by
      rw [List.flatten_cons]
      exact List.append_ne_nil_of_left_ne_nil
        (isWord_of_forall₂_means means word List.mem_cons_self).ne_nil _
    rw [← List.append_nil (word :: others).flatten] at short
    have all := readAll_append means short
    rw [List.append_nil] at all
    rw [readRun_eq, if_neg filled, all, readAll_nil]
    simp [Except.map]

/-- A run is refused exactly if, behind words at its start, a rest is left that
has a first defect, and with that defect; an empty run is such a rest. Behind at
least one word the rest is not empty, since a run may end there. -/
theorem readRun_eq_error_iff (short : ¬RunOutlasts run) {defect : VlqDefect} :
    readRun run = .error defect ↔ ∃ (words : List (List Char)) (rest : List Char),
      run = words.flatten ++ rest ∧ (∀ word ∈ words, IsWord word) ∧ (words ≠ [] → rest ≠ []) ∧
      FirstDefect rest defect := by
  constructor
  · intro failed
    rw [readRun_eq] at failed
    split at failed
    · rename_i nothing
      obtain rfl := Except.error.inj failed
      exact ⟨[], [], by simp [nothing], by simp, by simp, .empty⟩
    · rename_i filled
      obtain ⟨words, rest, rfl, each, ends⟩ := exists_words run
      obtain ⟨meant, means⟩ := exists_forall₂_means each
      rw [readAll_append means short] at failed
      rcases ends with rfl | ⟨left, other, first⟩
      · rw [readAll_nil] at failed
        cases failed
      · have shortRest : ¬Outlasts rest := fun outlasts => short ⟨words, rest, rfl, each, outlasts⟩
        rw [readAll_of_error left (first.read_eq shortRest)] at failed
        obtain rfl := Except.error.inj failed
        exact ⟨words, rest, rfl, each, fun _ => left, first⟩
  · rintro ⟨words, rest, rfl, each, behind, first⟩
    have shortRest : ¬Outlasts rest := fun outlasts => short ⟨words, rest, rfl, each, outlasts⟩
    have refused := first.read_eq shortRest
    by_cases nothing : rest = []
    · subst nothing
      obtain rfl : words = [] := by
        by_contra inhabited
        exact behind inhabited rfl
      rw [List.flatten_nil, List.append_nil, readRun_eq, if_pos rfl]
      exact congrArg Except.error (Except.error.inj refused)
    · obtain ⟨meant, means⟩ := exists_forall₂_means each
      rw [readRun_eq, if_neg (by simp [nothing]), readAll_append means short,
        readAll_of_error nothing refused]
      rfl

/-- Words mean the values that they spell. -/
theorem forall₂_means_iff {words : List (List Char)} {values : List Number} :
    List.Forall₂ Means words values ↔
      ∃ fields, List.Forall₂ SpellsValue words fields ∧ values = fields.map .ofInt := by
  constructor
  · intro means
    induction means with
    | nil => exact ⟨[], .nil, rfl⟩
    | cons first _ inductionHypothesis =>
      obtain ⟨number, exact, chained, rfl⟩ := first
      obtain ⟨fields, later, rfl⟩ := inductionHypothesis
      exact ⟨unfoldSign number :: fields, .cons ⟨number, exact, chained, rfl⟩ later,
        congrArg (· :: _) (signed_eq number)⟩
  · rintro ⟨fields, spells, rfl⟩
    induction spells with
    | nil => exact .nil
    | cons first _ inductionHypothesis =>
      obtain ⟨number, exact, chained, rfl⟩ := first
      exact .cons ⟨number, exact, chained, (signed_eq number).symm⟩ inductionHypothesis

/-- A text spells values if it is made of words, at least one, that spell one
each. -/
theorem spells_iff {fields : List Int} :
    Spells run fields ↔ ∃ words : List (List Char), words ≠ [] ∧ words.flatten = run ∧
      List.Forall₂ SpellsValue words fields := by
  constructor
  · intro spells
    induction spells with
    | @last chars value first => exact ⟨[chars], by simp, by simp, .cons first .nil⟩
    | @more chars rest value values first _ inductionHypothesis =>
      obtain ⟨words, _, rfl, later⟩ := inductionHypothesis
      exact ⟨chars :: words, by simp, by simp, .cons first later⟩
  · rintro ⟨words, inhabited, rfl, spells⟩
    induction spells with
    | nil => exact absurd rfl inhabited
    | @cons word value words values first later inductionHypothesis =>
      rw [List.flatten_cons]
      by_cases nothing : words = []
      · subst nothing
        cases later
        simpa using Spells.last first
      · exact .more first (inductionHypothesis nothing)

/-- Without long values a run is read exactly if its text spells values, and as
these. -/
theorem readRun_eq_ok_iff (short : ¬HasLongValue run) {values : List Number} :
    readRun run = .ok values ↔ ∃ fields, Spells run fields ∧ values = fields.map .ofInt := by
  rw [readRun_eq_ok_iff_words fun outlasts => short outlasts.hasLongValue]
  simp only [forall₂_means_iff, spells_iff]
  constructor
  · rintro ⟨words, inhabited, split, fields, spells, rfl⟩
    exact ⟨fields, ⟨words, inhabited, split, spells⟩, rfl⟩
  · rintro ⟨fields, ⟨words, inhabited, split, spells⟩, rfl⟩
    exact ⟨words, inhabited, split, fields, spells, rfl⟩

/-- The values of a run without long ones are integers that can be written. -/
theorem of_readRun {values : List Number} (success : readRun run = .ok values)
    (short : ¬HasLongValue run) :
    ∃ fields : List Int, values = fields.map .ofInt ∧
      ∀ field ∈ fields, field.natAbs ≤ Coordinate.greatest := by
  obtain ⟨fields, spells, rfl⟩ :=
    (readRun_eq_ok_iff short).mp success
  exact ⟨fields, rfl, spells.natAbs_le⟩

end SourceMap.Vlq

import SourceMap.Mappings.Reader
import SourceMap.Proofs.OriginIndex.Adding

/-!
# Reading mappings token by token

A mappings text is one list of tokens, each with the number of its generated line
and its own number on that line. Reading it goes through this list once: a token
is resolved from the cursor that the one before it left, the first of a line after
a fresh start of the generated column, and what it resolves to is added to the
index. Blank groups have no token, so they only count as lines.

This takes two loops within each other, and the index that they build, to one
recursion over a list that does not look at the index at all. The lines start
afresh at their first token and not at their separator, so the cursors of the two
may differ at the end of a line; they are compared up to the generated column.
Everything about reading is proved of the recursion.
-/

namespace SourceMap
namespace Mappings

/-- The text of one segment, with the numbers of its generated line and of
itself on it. -/
structure Token where
  line : Nat
  segment : Nat
  text : List Char

/-- Texts as the tokens of a generated line, numbered from a start on. -/
def lineTokens (line start : Nat) (texts : List (List Char)) : List Token :=
  (texts.zipIdx start).map fun (text, segment) => ⟨line, segment, text⟩

/-- The tokens of one generated line; a blank group has none. -/
def groupTokens (line : Nat) (group : List Char) : List Token :=
  if Blank.isBlankText group then [] else lineTokens line 0 (group.splitOn ',')

/-- The tokens of groups, one for each generated line from a start on. -/
def tokensFrom (start : Nat) (groups : List (List Char)) : List Token :=
  (groups.zipIdx start).flatMap fun (group, line) => groupTokens line group

/-- The tokens of a mappings text. -/
def tokens (text : List Char) : List Token := tokensFrom 0 (text.splitOn ';')

/-- No texts make no tokens. -/
@[simp] theorem lineTokens_nil (line start : Nat) : lineTokens line start [] = [] := rfl

/-- The first text makes the first token, and the others follow. -/
@[simp] theorem lineTokens_cons (line start : Nat) (text : List Char) (rest : List (List Char)) :
    lineTokens line start (text :: rest) =
      ⟨line, start, text⟩ :: lineTokens line (start + 1) rest := rfl

/-- No groups make no tokens. -/
@[simp] theorem tokensFrom_nil (start : Nat) : tokensFrom start [] = [] := rfl

/-- The tokens of the first group come first, and those of the other lines
follow. -/
@[simp] theorem tokensFrom_cons (start : Nat) (group : List Char) (rest : List (List Char)) :
    tokensFrom start (group :: rest) = groupTokens start group ++ tokensFrom (start + 1) rest :=
  rfl

/-- A blank group has no tokens. -/
theorem groupTokens_of_blank (line : Nat) {group : List Char}
    (blank : Blank.isBlankText group = true) : groupTokens line group = [] := if_pos blank

/-- The tokens of a group that is not blank are between its commas. -/
theorem groupTokens_of_not_blank (line : Nat) {group : List Char}
    (filled : Blank.isBlankText group = false) :
    groupTokens line group = lineTokens line 0 (group.splitOn ',') :=
  if_neg (Bool.eq_false_iff.mp filled)

/-- The tokens of a line are on it. -/
theorem line_of_mem_lineTokens {line start : Nat} {texts : List (List Char)} {token : Token}
    (member : token ∈ lineTokens line start texts) : token.line = line := by
  obtain ⟨⟨text, segment⟩, _, rfl⟩ := List.mem_map.mp member
  rfl

/-- The tokens of a group are on its line. -/
theorem line_of_mem_groupTokens {line : Nat} {group : List Char} {token : Token}
    (member : token ∈ groupTokens line group) : token.line = line := by
  unfold groupTokens at member
  split at member
  · simp at member
  · exact line_of_mem_lineTokens member

variable {σ : Type} [SourceKey σ]

namespace Token

/-- Where a token stands, as faults report it. -/
def location (token : Token) : Location where
  line := some (.ofNat token.line)
  segment := some (.ofNat token.segment)
  token := some (String.ofList token.text)

/-- The cursor that a token refers to, given the one that the token before it
left. -/
def startFrom (token : Token) (cursor : Cursor) : Cursor :=
  if token.segment = 0 then cursor.newLine else cursor

/-- The mapping that a token stands for, and the cursor that it leaves. -/
def resolve (sources : List σ) (names : List String) (cursor : Cursor) (token : Token) :
    Except Fault (Mapping σ × Cursor) := do
  let offset ← (Vlq.readRun token.text).mapError fun defect =>
    .malformedVlq defect (some token.location)
  let (resolved, next) ← (token.startFrom cursor).step offset sources names token.location
  return (⟨resolved.source, resolved.originalLine, resolved.originalColumn,
    .placed (.ofNat token.line) resolved.generatedColumn resolved.name⟩, next)

/-- The first token of a line does not see where the line before it ended. -/
theorem resolve_newLine (sources : List σ) (names : List String) (cursor : Cursor) (token : Token)
    (first : token.segment = 0) :
    token.resolve sources names cursor.newLine = token.resolve sources names cursor := by
  simp only [resolve, startFrom, first, if_true]
  rfl

end Token

/-- The mappings that tokens stand for, from a cursor on. -/
def resolveAll (sources : List σ) (names : List String) :
    Cursor → List Token → Except Fault (List (Mapping σ))
  | _, [] => .ok []
  | cursor, token :: rest => do
    let (mapping, next) ← token.resolve sources names cursor
    let mappings ← resolveAll sources names next rest
    return mapping :: mappings

variable [DecidableEq σ]

namespace Progress

/-- Resolve a token and add what it stands for. -/
def advance (sources : List σ) (names : List String) (progress : Progress σ) (token : Token) :
    Except Fault (Progress σ) :=
  (token.resolve sources names progress.cursor).map fun (mapping, next) =>
    { cursor := next, index := progress.index.addMapping mapping }

/-- Progress at the start of the next generated line. -/
def newLine (progress : Progress σ) : Progress σ :=
  { progress with cursor := progress.cursor.newLine }

end Progress

/-- Reading a segment is resolving its token, where the first of a line starts
afresh. -/
theorem readSegment_eq (sources : List σ) (names : List String) (line segment : Nat)
    (progress : Progress σ) (text : List Char) (fresh : segment = 0 → progress.newLine = progress) :
    readSegment sources names line segment progress text =
      progress.advance sources names ⟨line, segment, text⟩ := by
  have start : Token.startFrom ⟨line, segment, text⟩ progress.cursor = progress.cursor := by
    by_cases first : segment = 0
    · have settled := congrArg Progress.cursor (fresh first)
      simpa [Token.startFrom, first, Progress.newLine] using settled
    · simp [Token.startFrom, first]
  rw [readSegment, Progress.advance, Token.resolve, start]
  cases Vlq.readRun text with
  | error defect => rfl
  | ok offset =>
    change Except.bind _ _ = Except.map _ (Except.bind _ _)
    simp only [Except.mapError, Except.bind, Token.location]
    cases progress.cursor.step offset sources names _ <;> rfl

/-- Reading the segments of a line is going through its tokens. -/
theorem readSegments_eq (sources : List σ) (names : List String) (line : Nat)
    (texts : List (List Char)) (start : Nat) (progress : Progress σ)
    (fresh : start = 0 → progress.newLine = progress) :
    (texts.zipIdx start).foldlM
        (fun progress (text, segment) => readSegment sources names line segment progress text)
        progress =
      (lineTokens line start texts).foldlM (Progress.advance sources names) progress := by
  induction texts generalizing start progress with
  | nil => rfl
  | cons text rest inductionHypothesis =>
    simp only [List.zipIdx_cons, List.foldlM_cons, lineTokens_cons]
    rw [readSegment_eq sources names line start progress text fresh]
    congr 1
    funext next
    exact inductionHypothesis (start + 1) next (fun impossible => absurd impossible (by omega))

/-- A group that is not blank has a token that starts its line. -/
theorem exists_groupTokens_eq_cons (line : Nat) {group : List Char}
    (filled : Blank.isBlankText group = false) :
    ∃ text rest, groupTokens line group = ⟨line, 0, text⟩ :: rest := by
  obtain ⟨text, texts, split⟩ := List.exists_cons_of_ne_nil (List.splitOn_ne_nil ',' group)
  refine ⟨text, lineTokens line 1 texts, ?_⟩
  rw [groupTokens_of_not_blank line filled, split, lineTokens_cons]

/-- Reading a line that is not blank is going through its tokens. -/
theorem readLine_of_not_blank (sources : List σ) (names : List String) (line : Nat)
    (progress : Progress σ) {group : List Char} (filled : Blank.isBlankText group = false) :
    readLine sources names line progress group =
      (groupTokens line group).foldlM (Progress.advance sources names) progress := by
  have once : readLine sources names line progress group =
      (groupTokens line group).foldlM (Progress.advance sources names) progress.newLine := by
    rw [groupTokens_of_not_blank line filled]
    simp only [readLine, filled, Bool.false_eq_true, if_false]
    exact readSegments_eq sources names line (group.splitOn ',') 0 progress.newLine (fun _ => rfl)
  obtain ⟨text, rest, split⟩ := exists_groupTokens_eq_cons line filled
  rw [once, split, List.foldlM_cons, List.foldlM_cons]
  have first : progress.newLine.advance sources names ⟨line, 0, text⟩ =
      progress.advance sources names ⟨line, 0, text⟩ := by
    simp only [Progress.advance, Progress.newLine]
    rw [Token.resolve_newLine sources names progress.cursor _ rfl]
  rw [first]

/-- Reading groups one after the other adds what their tokens stand for.
Progress may differ in the generated column, which the next token of a new line
does not see.

Proof: by induction on the groups. A blank group moves the cursor to a new line
and has no tokens, so the progress of the two sides then differs in the column
only. Any other group has a token that starts its line, and from there on both
sides are the same. -/
theorem readLines_eq (sources : List σ) (names : List String) (groups : List (List Char))
    (start : Nat) (progress other : Progress σ) (alike : progress.newLine = other.newLine) :
    ((groups.zipIdx start).foldlM
        (fun progress (group, line) => readLine sources names line progress group)
        progress).map Progress.index =
      ((tokensFrom start groups).foldlM (Progress.advance sources names) other).map
        Progress.index := by
  induction groups generalizing start progress other with
  | nil => exact congrArg (fun state => Except.ok state.index) alike
  | cons group rest inductionHypothesis =>
    simp only [List.zipIdx_cons, List.foldlM_cons, tokensFrom_cons, List.foldlM_append]
    by_cases blank : Blank.isBlankText group = true
    · have skipped : readLine sources names start progress group = .ok progress.newLine := by
        simp [readLine, blank, Progress.newLine]
      rw [skipped, groupTokens_of_blank start blank]
      exact inductionHypothesis (start + 1) progress.newLine other alike
    · have filled : Blank.isBlankText group = false := by simpa using blank
      obtain ⟨text, tail, split⟩ := exists_groupTokens_eq_cons start filled
      have same : (groupTokens start group).foldlM (Progress.advance sources names) progress =
          (groupTokens start group).foldlM (Progress.advance sources names) other := by
        have first : progress.advance sources names ⟨start, 0, text⟩ =
            other.advance sources names ⟨start, 0, text⟩ := by
          have cursors : progress.cursor.newLine = other.cursor.newLine :=
            congrArg Progress.cursor alike
          have indexes : progress.newLine.index = other.newLine.index :=
            congrArg Progress.index alike
          change progress.index = other.index at indexes
          simp only [Progress.advance, indexes]
          rw [← Token.resolve_newLine sources names progress.cursor _ rfl, cursors,
            Token.resolve_newLine sources names other.cursor _ rfl]
        rw [split, List.foldlM_cons, List.foldlM_cons, first]
      rw [readLine_of_not_blank sources names start progress filled, same]
      cases (groupTokens start group).foldlM (Progress.advance sources names) other with
      | error fault => rfl
      | ok next => exact inductionHypothesis (start + 1) next next rfl

/-- Going through tokens adds the mappings that they stand for. -/
theorem foldlM_advance_eq (sources : List σ) (names : List String) (tokens : List Token)
    (progress : Progress σ) :
    (tokens.foldlM (Progress.advance sources names) progress).map Progress.index =
      (resolveAll sources names progress.cursor tokens).map fun mappings =>
        mappings.foldl OriginIndex.addMapping progress.index := by
  induction tokens generalizing progress with
  | nil => rfl
  | cons token rest inductionHypothesis =>
    rw [List.foldlM_cons, resolveAll, Progress.advance]
    cases token.resolve sources names progress.cursor with
    | error fault => rfl
    | ok resolved =>
      obtain ⟨mapping, next⟩ := resolved
      change ((rest.foldlM (Progress.advance sources names)
        ⟨next, progress.index.addMapping mapping⟩).map Progress.index) = _
      rw [inductionHypothesis]
      change _ = Except.map _ (Except.bind (resolveAll sources names next rest) _)
      cases resolveAll sources names next rest <;> rfl

/-- A mappings text describes the index of the mappings that its tokens stand
for. It fails exactly if a token does not resolve, with the fault of the first
one that does not. -/
theorem read_eq (text : String) (sources : List σ) (names : List String) :
    read text sources names =
      (resolveAll sources names .start (tokens text.toList)).map
        (OriginIndex.ofMappings sources) := by
  have lines := readLines_eq sources names (text.toList.splitOn ';') 0
    ⟨.start, .ofSources sources⟩ ⟨.start, .ofSources sources⟩ rfl
  rw [foldlM_advance_eq] at lines
  exact lines

end Mappings
end SourceMap

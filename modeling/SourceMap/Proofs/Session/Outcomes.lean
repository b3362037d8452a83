import SourceMap.Proofs.Walk
import SourceMap.Session

/-!
# What a step of a session comes to

A step either makes an index or fails, and this module says once what each of them
does to the cells and names of a session. A step that makes an index puts it into
one cell, which may be new, and changes nothing else. A step that fails may leave
new cells behind, but the old ones and the names are as they were.

Only reading needs an argument. It goes through the segments of a text in the cell
that it fills, whereas `Mappings.read` hands an index from segment to segment.
`Follows` relates the two after any number of segments, and the induction is over
the segments of a line and then over the lines.
-/

namespace SourceMap
namespace Session

variable {σ : Type} [DecidableEq σ] [SourceKey σ] {session after : Session σ} {cell : Nat}
  {index : OriginIndex σ}

/-- Of two indexes put into a cell the second one stays. -/
theorem put_put (session : Session σ) (cell : Nat) (first second : OriginIndex σ) :
    (session.put cell first).put cell second = session.put cell second := by
  simp [put]

/-- The last cell of a longer session may as well have had another index from
the start. -/
theorem put_extend (session : Session σ) (first second : OriginIndex σ) :
    (session.extend first).put session.cells.length second = session.extend second := by
  simp [put, extend]

/-- What is put into a cell is found there. -/
theorem load_put (inside : cell < session.cells.length) (index : OriginIndex σ) :
    load cell (session.put cell index) = .ok index (session.put cell index) := by
  simp [load, put, inside]

/-- What reading into a cell comes to, given what reading comes to on its own:
the same cursor with the same index in the cell, or the same fault with some
index in the cell. -/
def Follows (session : Session σ) (cell : Nat)
    (outcome : EStateM.Result Refusal (Session σ) Cursor) :
    Except Fault (Mappings.Progress σ) → Prop
  | .ok progress => outcome = .ok progress.cursor (session.put cell progress.index)
  | .error fault => ∃ index, outcome = .error (.fault fault) (session.put cell index)

/-- Reading a segment into a cell. -/
theorem follows_readSegment (inside : cell < session.cells.length) (sources : List σ)
    (names : List String) (line segment : Nat) (progress : Mappings.Progress σ)
    (token : List Char) :
    Follows session cell
      (readSegment cell sources names line segment progress.cursor token
        (session.put cell progress.index))
      (Mappings.readSegment sources names line segment progress token) := by
  simp only [readSegment, bind, EStateM.bind, load_put inside]
  cases Mappings.readSegment sources names line segment progress token with
  | error fault => exact ⟨progress.index, rfl⟩
  | ok next => exact congrArg (EStateM.Result.ok next.cursor) (put_put ..)

/-- Steps that follow one another one by one do so in a row. -/
theorem Follows.foldlM {α : Type} {step : Cursor → α → Action σ Cursor}
    {pureStep : Mappings.Progress σ → α → Except Fault (Mappings.Progress σ)}
    (each : ∀ progress element, Follows session cell
      (step progress.cursor element (session.put cell progress.index))
      (pureStep progress element))
    (elements : List α) (progress : Mappings.Progress σ) :
    Follows session cell
      (elements.foldlM step progress.cursor (session.put cell progress.index))
      (elements.foldlM pureStep progress) := by
  induction elements generalizing progress with
  | nil => rfl
  | cons element rest inductionHypothesis =>
    have here := each progress element
    simp only [List.foldlM_cons, bind, EStateM.bind, Except.bind]
    cases outcome : pureStep progress element with
    | error fault =>
      rw [outcome] at here
      obtain ⟨index, failed⟩ := here
      exact ⟨index, by rw [failed]⟩
    | ok next =>
      rw [outcome] at here
      rw [show step progress.cursor element _ = _ from here]
      exact inductionHypothesis next

/-- Reading a line into a cell. -/
theorem follows_readLine (inside : cell < session.cells.length) (sources : List σ)
    (names : List String) (line : Nat) (progress : Mappings.Progress σ) (group : List Char) :
    Follows session cell
      (readLine cell sources names line progress.cursor group (session.put cell progress.index))
      (Mappings.readLine sources names line progress group) := by
  unfold readLine Mappings.readLine
  by_cases blank : Blank.isBlankText group = true
  · simp only [if_pos blank]
    rfl
  · simp only [if_neg blank]
    exact Follows.foldlM (fun next entry =>
      follows_readSegment inside sources names line entry.2 next entry.1) _
        { progress with cursor := progress.cursor.newLine }

/-- Reading a text into a cell. -/
theorem follows_readText (inside : cell < session.cells.length) (text : String) (sources : List σ)
    (names : List String) (index : OriginIndex σ) :
    Follows session cell (readText cell text sources names (session.put cell index))
      ((text.toList.splitOn ';').zipIdx.foldlM
        (fun progress (group, line) => Mappings.readLine sources names line progress group)
        ⟨.start, index⟩) :=
  Follows.foldlM (fun next entry => follows_readLine inside sources names entry.2 next entry.1) _
    ⟨.start, index⟩

/-- Reading a text into a new cell. -/
theorem follows_readText_new (session : Session σ) (started : OriginIndex σ) (text : String)
    (sources : List σ) (names : List String) :
    Follows (session.extend started) session.cells.length
      (readText session.cells.length text sources names (session.extend started))
      ((text.toList.splitOn ';').zipIdx.foldlM
        (fun progress (group, line) => Mappings.readLine sources names line progress group)
        ⟨.start, started⟩) := by
  have inside : session.cells.length < (session.extend started).cells.length := by simp [extend]
  have follows := follows_readText inside text sources names started
  rwa [put_extend] at follows

/-- A text that is read makes an index in a new cell, for which the name then
stands. -/
theorem perform_read_of_ok {text : String} {sources names : List String}
    (success : Mappings.read text (sources.map SourceKey.ofName) names = .ok index)
    (name : String) (session : Session σ) :
    perform (.read name text sources names) session =
      .ok () ((session.extend index).assign name session.cells.length) := by
  obtain ⟨progress, folded, success⟩ := Walk.bind_eq_ok.mp success
  obtain rfl := Except.ok.inj success
  have follows := follows_readText_new session
    ((sources.map SourceKey.ofName).foldl OriginIndex.includeSource
      (.empty (sources.map SourceKey.ofName))) text (sources.map SourceKey.ofName) names
  rw [folded] at follows
  simp only [perform, bind, EStateM.bind, allocate]
  rw [show readText _ _ _ _ _ = _ from follows, put_extend]
  rfl

/-- A text with a fault leaves some index in a new cell, for which no name
stands. -/
theorem perform_read_of_error {text : String} {sources names : List String} {fault : Fault}
    (failure : Mappings.read text (sources.map SourceKey.ofName : List σ) names = .error fault)
    (name : String) (session : Session σ) :
    ∃ index, perform (.read name text sources names) session =
      .error (.fault fault) (session.extend index) := by
  have folded := (Walk.bind_eq_error.mp failure).resolve_right fun ⟨_, _, impossible⟩ =>
    nomatch impossible
  have follows := follows_readText_new session
    ((sources.map SourceKey.ofName).foldl OriginIndex.includeSource
      (.empty (sources.map SourceKey.ofName))) text (sources.map SourceKey.ofName) names
  rw [folded] at follows
  obtain ⟨index, failed⟩ := follows
  refine ⟨index, ?_⟩
  simp only [perform, bind, EStateM.bind, allocate]
  rw [failed, put_extend]

/-- A session in which every name that stands for a cell stands for one that is
there. -/
def Allocated (session : Session σ) : Prop :=
  ∀ name cell, session.named name = some cell → cell < session.cells.length

/-- The session without any index has no name to look for. -/
theorem allocated_empty : (empty : Session σ).Allocated := fun _ _ held => nomatch held

/-- A name that stands for a cell has the index in it. -/
theorem Allocated.exists_index (allocated : session.Allocated) {name : String}
    (held : session.named name = some cell) :
    ∃ index, session.cells[cell]? = some index ∧ session.index? name = some index := by
  have found := List.getElem?_eq_getElem (allocated name cell held)
  exact ⟨_, found, by rw [index?, held, Option.bind_some, found]⟩

/-- Fetching finds the index that a name stands for; without it nothing happens. -/
theorem Allocated.fetch_cases (allocated : session.Allocated) (name : String) :
    (∃ index, session.index? name = some index ∧ fetch name session = .ok index session) ∨
      fetch name session = .error (.unknown name) session := by
  simp only [fetch, bind, EStateM.bind, cellOf]
  cases held : session.named name with
  | none => exact Or.inr rfl
  | some cell =>
    obtain ⟨index, inCell, found⟩ := allocated.exists_index held
    exact Or.inl ⟨index, found, by simp [load, inCell]⟩

/-- The index that a step makes out of those of a session, with all that the step
asks for: an index that it changes or joins is held under its name, a text is read
and a redirection succeeds. Where one of these is not so the step makes nothing. -/
inductive Makes (session : Session σ) : Step → OriginIndex σ → Prop
  | start (name : String) (order : List String) :
    Makes session (.start name order) (.empty (order.map SourceKey.ofName))
  | add {name : String} {index : OriginIndex σ} (held : session.index? name = some index)
      (source : String) (line column : Number) (target : Target) :
    Makes session (.add name source line column target)
      (index.add (SourceKey.ofName source) line column target)
  | includeSource {name : String} {index : OriginIndex σ}
      (held : session.index? name = some index) (source : String) :
    Makes session (.includeSource name source) (index.includeSource (SourceKey.ofName source))
  | includeColumn {name : String} {index : OriginIndex σ}
      (held : session.index? name = some index) (source : String) (line column : Number) :
    Makes session (.includeColumn name source line column)
      ((index.includeSource (SourceKey.ofName source)).append (SourceKey.ofName source) line column
        [])
  | read {text : String} {sources names : List String} {index : OriginIndex σ}
      (success : Mappings.read text (sources.map SourceKey.ofName) names = .ok index)
      (name : String) :
    Makes session (.read name text sources names) index
  | takeOver (name : String) (record : OriginRecord) (order : Option (List String)) :
    Makes session (.takeOver name record order)
      (.ofRecord record (order.map fun sources => sources.map SourceKey.ofName))
  | redirect {first second : String} {index through redirected : OriginIndex σ}
      {file : Option String} (held : session.index? first = some index)
      (heldToo : session.index? second = some through)
      (success : index.redirectThrough through (file.map SourceKey.ofName) = .ok redirected)
      (name : String) :
    Makes session (.redirect name first second file) redirected
  | redirectLines {first : String} {index : OriginIndex σ}
      (held : session.index? first = some index) (name : String) (second : LineTable) :
    Makes session (.redirectLines name first second) (index.redirect second)

/-- The session after an index has been made: all names stand for cells, and an
index that a name stands for is that one or was there before. -/
structure Gains (session : Session σ) (index : OriginIndex σ) (after : Session σ) : Prop where
  allocated : after.Allocated
  only : ∀ name held, after.index? name = some held → held = index ∨ session.index? name = some held

/-- The session after something has failed: its names are as before, and so are
all cells that there were. -/
structure Extends (session after : Session σ) : Prop where
  named : after.named = session.named
  cells : session.cells <+: after.cells

/-- A session with another index in a cell gains that index. -/
theorem Allocated.gains_put (allocated : session.Allocated) (cell : Nat) (index : OriginIndex σ) :
    Gains session index (session.put cell index) where
  allocated := fun name other held => by
    rw [put, List.length_set]
    exact allocated name other held
  only := fun name held found => by
    obtain ⟨other, named, found⟩ := Option.bind_eq_some_iff.mp found
    rw [put, List.getElem?_set] at found
    split at found
    · exact Or.inl (Option.some.inj (Option.ite_none_right_eq_some.mp found).2).symm
    · exact Or.inr (by rw [index?, show session.named name = some other from named]; exact found)

/-- A session with an index in a new cell and a name for it gains that index. -/
theorem Allocated.gains_extend (allocated : session.Allocated) (name : String)
    (index : OriginIndex σ) :
    Gains session index ((session.extend index).assign name session.cells.length) where
  allocated := fun other cell held => by
    simp only [assign, extend, List.length_append, List.length_singleton] at held ⊢
    split at held
    · exact Option.some.inj held ▸ Nat.lt_succ_self _
    · exact (allocated other cell held).trans (Nat.lt_succ_self _)
  only := fun other held found => by
    obtain ⟨cell, named, found⟩ := Option.bind_eq_some_iff.mp found
    simp only [assign, extend] at named found
    split at named
    · obtain rfl := Option.some.inj named
      rw [List.getElem?_concat_length] at found
      exact Or.inl (Option.some.inj found).symm
    · rw [List.getElem?_append_left (allocated other cell named)] at found
      exact Or.inr (by rw [index?, named]; exact found)

/-- A session that has not changed has lost nothing. -/
theorem Extends.refl (session : Session σ) : Extends session session := ⟨rfl, List.prefix_rfl⟩

/-- A session with one more cell has lost nothing. -/
theorem extends_extend (session : Session σ) (index : OriginIndex σ) :
    Extends session (session.extend index) := ⟨rfl, List.prefix_append _ _⟩

/-- Where nothing is lost the names have their indexes as before. -/
theorem Extends.index?_eq (further : Extends session after) (allocated : session.Allocated)
    (name : String) : after.index? name = session.index? name := by
  rw [index?, index?, further.named]
  cases held : session.named name with
  | none => rfl
  | some cell =>
    obtain ⟨more, same⟩ := further.cells
    rw [← same, Option.bind_some, Option.bind_some,
      List.getElem?_append_left (allocated name cell held)]

/-- Where nothing is lost all names stand for cells as before. -/
theorem Extends.allocated (further : Extends session after) (allocated : session.Allocated) :
    after.Allocated := fun name cell held =>
  (allocated name cell (further.named ▸ held)).trans_le further.cells.length_le

/-- What performing a step comes to: an index that it makes, or a failure
without loss. -/
inductive Outcome (session : Session σ) (step : Step) :
    EStateM.Result Refusal (Session σ) Unit → Prop
  | makes {made : OriginIndex σ} {after : Session σ} (makes : Makes session step made)
      (gains : Gains session made after) : Outcome session step (.ok () after)
  | fails {after : Session σ} (refusal : Refusal) (further : Extends session after) :
    Outcome session step (.error refusal after)

/-- Changing the index of a name puts the changed index into its cell; without
the name there is nothing to change. -/
theorem Allocated.outcome_change (allocated : session.Allocated) {step : Step} (name : String)
    (update : OriginIndex σ → OriginIndex σ)
    (makes : ∀ index, session.index? name = some index → Makes session step (update index)) :
    Outcome session step (change name update session) := by
  simp only [change, bind, EStateM.bind, cellOf]
  cases held : session.named name with
  | none => exact .fails _ (.refl session)
  | some cell =>
    obtain ⟨index, inCell, found⟩ := allocated.exists_index held
    simp only [load, store, inCell, Option.getD_some]
    exact .makes (makes index found) (allocated.gains_put cell (update index))

/-- Performing a step makes an index or fails without loss. The names of the
session have to lead to cells that there are, as they do after any run.

A step that fails may have put an index into a new cell before: reading does, and
leaves what it had read so far there, under no name. No cell that was there before
is written to by a step that fails. -/
theorem Allocated.outcome_perform (allocated : session.Allocated) (step : Step) :
    Outcome session step (perform step session) := by
  cases step with
  | start name order => exact .makes (.start name order) (allocated.gains_extend name _)
  | add name source line column target =>
    exact allocated.outcome_change name _ fun index held => .add held source line column target
  | includeSource name source =>
    exact allocated.outcome_change name _ fun index held => .includeSource held source
  | includeColumn name source line column =>
    exact allocated.outcome_change name _ fun index held => .includeColumn held source line column
  | read name text sources names =>
    cases read : Mappings.read text (sources.map SourceKey.ofName : List σ) names with
    | ok index =>
      rw [perform_read_of_ok read]
      exact .makes (.read read name) (allocated.gains_extend name index)
    | error fault =>
      obtain ⟨index, failed⟩ := perform_read_of_error read name session
      rw [failed]
      exact .fails _ (extends_extend session index)
  | takeOver name record order =>
    exact .makes (.takeOver name record order) (allocated.gains_extend name _)
  | redirect name first second file =>
    simp only [perform, bind, EStateM.bind]
    rcases allocated.fetch_cases second with ⟨through, foundSecond, fetched⟩ | failed
    · simp only [fetched]
      rcases allocated.fetch_cases first with ⟨index, foundFirst, fetched⟩ | failed
      · simp only [fetched]
        cases success : index.redirectThrough through (file.map SourceKey.ofName) with
        | error fault => exact .fails _ (.refl session)
        | ok redirected =>
          exact .makes (.redirect foundFirst foundSecond success name)
            (allocated.gains_extend name redirected)
      · simp only [failed]
        exact .fails _ (.refl session)
    · simp only [failed]
      exact .fails _ (.refl session)
  | redirectLines name first second =>
    simp only [perform, bind, EStateM.bind]
    rcases allocated.fetch_cases first with ⟨index, found, fetched⟩ | failed
    · simp only [fetched]
      exact .makes (.redirectLines found name second) (allocated.gains_extend name _)
    · simp only [failed]
      exact .fails _ (.refl session)

/-- Whatever a step comes to, all names stand for cells after it. -/
theorem Allocated.advance (allocated : session.Allocated) (step : Step) :
    (session.advance step).1.Allocated := by
  have outcome := allocated.outcome_perform step
  unfold Session.advance
  generalize perform step session = result at outcome
  cases outcome with
  | makes _ gains => exact gains.allocated
  | fails _ further => exact further.allocated allocated

/-- After any steps all names stand for cells. -/
theorem Allocated.run (allocated : session.Allocated) (steps : List Step) :
    (session.run steps).Allocated :=
  List.foldlRecOn steps _ allocated fun _ earlier step _ => earlier.advance step

/-- A step that fails leaves every index as it was. -/
theorem Allocated.index?_advance (allocated : session.Allocated) {step : Step} {refusal : Refusal}
    (failed : (session.advance step).2 = some refusal) (name : String) :
    (session.advance step).1.index? name = session.index? name := by
  have outcome := allocated.outcome_perform step
  unfold Session.advance at failed ⊢
  generalize perform step session = result at outcome failed
  cases outcome with
  | makes => simp at failed
  | fails _ further => exact further.index?_eq allocated name

end Session
end SourceMap

import SourceMap.Proofs.Mappings.WholeIndexes
import SourceMap.Proofs.OriginIndex.Outline
import SourceMap.Proofs.Session.Outcomes

/-!
# Consistency of the indexes of a session

A session starts indexes, adds to them, makes sure of origins, reads mappings
texts, takes over records and redirects one index through another, in any order
and on any number of indexes. Whatever the steps were, every index of the session
is consistent: on each of its three levels it lists its keys in strictly ascending
order and none twice, and a look-up finds exactly what is listed. And a step that
fails leaves every index as it was.

Two conditions are needed. An undefined line or column compares with nothing, so a
table that has one for a key is in no order. And the key of a missing source is
level with every other source that is not in the list of the index; it gets into
an index by a text with a value of more digits than there are places of finite
weight, whose index of a source is undefined. So the first law asks that the texts
that are read have no such value; the second one does not.

The first law follows from an invariant of the single index: it is regular, that
is, its tables are sound and all of its sources have names. Every index that a
step makes has it, if the indexes that the step starts from do; `Makes` lists the
ways to make one, and there is one case for each. The second law is that of
`Outcome`: what fails adds no more than cells that no name stands for.
-/

namespace SourceMap

/-- A map that lists its keys in strictly ascending order and none twice, and in
which a look-up finds exactly the listed keys, each with the listed value. -/
structure OrderedMap.Consistent {κ α : Type} [DecidableEq κ] {compare : κ → κ → Option Ordering}
    (map : OrderedMap compare α) : Prop where
  ascending : map.keys.Pairwise fun left right => compare left right = some .lt
  distinct : map.keys.Nodup
  contains_iff : ∀ key, map.contains key = true ↔ key ∈ map.keys
  get?_iff : ∀ key value, map.get? key = some value ↔ (key, value) ∈ map.entries

/-- A sound map all of whose keys are valid is consistent. -/
theorem OrderedMap.Sound.consistent {κ α : Type} [DecidableEq κ]
    {compare : κ → κ → Option Ordering} {valid : κ → Prop} {good : α → Prop}
    {map : OrderedMap compare α} (sound : OrderedMap.Sound valid good map)
    (validKeys : ∀ key ∈ map.keys, valid key) : map.Consistent where
  ascending := List.pairwise_map.mpr ((sound.ascending validKeys).imp And.right)
  distinct := map.distinct
  contains_iff := fun key => (mem_keys_iff map key).symm
  get?_iff := fun key value => (mem_entries_iff map key value).symm

namespace OriginIndex

variable {σ : Type} [DecidableEq σ] [SourceKey σ] {index : OriginIndex σ}

/-- An index all of whose maps are consistent: its sources under its own
comparison, the lines of each source and the columns of each line in numeric
order. No line is without columns. -/
structure Consistent (index : OriginIndex σ) : Prop where
  sources : OrderedMap.Consistent index.sources
  lines : ∀ lines ∈ index.sources.values, OrderedMap.Consistent lines
  columns : ∀ lines ∈ index.sources.values, ∀ columns ∈ lines.values,
    OrderedMap.Consistent columns ∧ columns.entries ≠ []

/-- A regular index without undefined keys is consistent. -/
theorem Regular.consistent (regular : index.Regular) (defined : index.Defined) :
    index.Consistent where
  sources := OrderedMap.Sound.consistent regular.sound regular.named
  lines := fun lines member =>
    OrderedMap.Sound.consistent (regular.sound.values lines member) (defined lines member).lineKeys
  columns := fun lines member columns inside => by
    obtain ⟨sound, inhabited⟩ := (regular.sound.values lines member).values columns inside
    have columnKeys := (defined lines member).columnKeys columns inside
    exact ⟨OrderedMap.Sound.consistent sound columnKeys, inhabited⟩

end OriginIndex

namespace Session

/-- Whether a step reads no text with a value of more digits than there are
places of finite weight. -/
def Step.Short : Step → Prop
  | .read _ text _ _ => ¬Vlq.HasLongValue text.toList
  | _ => True

section Lawful

variable {σ : Type} [DecidableEq σ] [SourceKey σ] [LawfulSourceKey σ] {session : Session σ}

/-- A session in which all names stand for cells and all of their indexes are
regular. -/
structure Regular (session : Session σ) : Prop where
  allocated : session.Allocated
  indexes : ∀ name index, session.index? name = some index → index.Regular

omit [LawfulSourceKey σ] in
/-- The session without any index is regular. -/
theorem regular_empty : (empty : Session σ).Regular where
  allocated := allocated_empty
  indexes := fun _ _ held => nomatch held

/-- What a short step makes out of regular indexes is regular. -/
theorem Makes.regular {step : Step} {made : OriginIndex σ} (makes : Makes session step made)
    (short : step.Short)
    (indexes : ∀ name index, session.index? name = some index → index.Regular) : made.Regular := by
  cases makes with
  | start name order => exact OriginIndex.regular_empty _
  | add held source line column target =>
    exact (indexes _ _ held).append (SourceKey.named_ofName source) line column [target]
  | includeSource held source =>
    exact (indexes _ _ held).includeSource (SourceKey.named_ofName source)
  | includeColumn held source line column =>
    have named := SourceKey.named_ofName (σ := σ) source
    exact ((indexes _ _ held).includeSource named).append named line column []
  | read success name =>
    exact Mappings.regular_of_read short (by simp [SourceKey.named_ofName]) success
  | takeOver name record order => exact OriginIndex.regular_ofRecord record _
  | redirect held heldToo success name =>
    obtain ⟨lines, _, rfl⟩ := Walk.map_eq_ok.mp success
    exact (indexes _ _ held).redirect lines
  | redirectLines held name second => exact (indexes _ _ held).redirect second

/-- A short step keeps a session regular, whether it succeeds or not. -/
theorem Regular.advance (regular : session.Regular) {step : Step} (short : step.Short) :
    (session.advance step).1.Regular := by
  have outcome := regular.allocated.outcome_perform step
  unfold Session.advance
  generalize perform step session = result at outcome
  cases outcome with
  | makes makes gains =>
    refine ⟨gains.allocated, fun name index held => ?_⟩
    rcases gains.only name index held with rfl | earlier
    · exact makes.regular short regular.indexes
    · exact regular.indexes name index earlier
  | fails refusal further =>
    refine ⟨further.allocated regular.allocated, fun name index held => ?_⟩
    rw [further.index?_eq regular.allocated] at held
    exact regular.indexes name index held

/-- Short steps keep a session regular. -/
theorem Regular.run (regular : session.Regular) {steps : List Step}
    (short : ∀ step ∈ steps, step.Short) : (session.run steps).Regular :=
  List.foldlRecOn steps _ regular fun _ earlier step member => earlier.advance (short step member)

end Lawful

/-- Any steps of a session, some of which may fail. If the texts that they read
have no value with more digits than there are places of finite weight, then
every index that the session holds afterwards, and in which no line and no
column is undefined, is consistent. And whatever step comes next, with such a
value or without, it leaves every index as it was if it fails.

The first part is by induction on the steps: each of them keeps the indexes
regular, and a regular index without undefined keys is consistent. A step that
fails may have filled a new cell in part by then, but no name stands for it. -/
theorem consistent_of_run (steps : List Step) :
    let session : Session (Option String) := empty.run steps
    ((∀ step ∈ steps, step.Short) →
      ∀ name index, session.index? name = some index → index.Defined → index.Consistent) ∧
    ∀ step refusal, (session.advance step).2 = some refusal →
      ∀ name, (session.advance step).1.index? name = session.index? name := by
  intro session
  constructor
  · intro short name index held defined
    exact ((regular_empty.run short).indexes name index held).consistent defined
  · intro step refusal failed name
    exact (allocated_empty.run steps).index?_advance failed name

/-- An index with two sources, a record in which two names spell one line, a
text that cannot be read to its end, the index redirected through the record,
and a redirection through a file that is not there. -/
def mixedSteps : List Step :=
  [.start "first" ["b.ts"], .add "first" "a.ts" 3 1 (.placed 5 2 none),
    .add "first" "a.ts" (.infinite true) 9 (.placed 0 0 none),
    .includeColumn "first" "b.ts" 7 (-1),
    .takeOver "second" [("mid.js", [("5", [("10", []), ("2", [.placed 1 4 (some "n")])]),
      ("0x5", [("2", [.placed 1 6 none])])])] none,
    .read "first" "AAAA,!" ["a.ts"] [],
    .redirect "merged" "first" "second" none,
    .redirect "merged" "first" "second" (some "other.js")]

/-- The steps that fail leave the redirected index in place, and so does one
that comes after them. The index lists the source of its list first, and
negative keys before the others. -/
theorem consistent_of_run_mixedSteps :
    let session : Session (Option String) := empty.run mixedSteps
    ∃ index, session.index? "merged" = some index ∧ index.Defined ∧ index.Consistent ∧
      index.outline =
        [(some "b.ts", [(7, [-1])]), (some "a.ts", [(.infinite true, [9]), (3, [1])])] ∧
      (session.advance (.redirect "merged" "first" "third" none)).1.index? "merged" =
        some index := by
  intro session
  have short : ∀ step ∈ mixedSteps, step.Short := by
    have reading : ¬Vlq.HasLongValue "AAAA,!".toList :=
      Vlq.not_hasLongValue_of_length_le (by decide)
    simpa [mixedSteps, Step.Short] using reading
  obtain ⟨consistent, failing⟩ := consistent_of_run mixedSteps
  have outlined : (session.index? "merged").map OriginIndex.outline =
      some [(some "b.ts", [(7, [-1])]), (some "a.ts", [(.infinite true, [9]), (3, [1])])] := by
    decide +kernel
  obtain ⟨index, held, outline⟩ := Option.map_eq_some_iff.mp outlined
  have checked : ∀ index ∈ session.index? "merged", index.Defined := by decide +kernel
  have defined : index.Defined := checked index held
  have refused : (session.advance (.redirect "merged" "first" "third" none)).2.isSome = true := by
    decide +kernel
  obtain ⟨refusal, failed⟩ := Option.isSome_iff_exists.mp refused
  exact ⟨index, held, defined, consistent short _ _ held defined, outline,
    (failing _ refusal failed "merged").trans held⟩

/-- A text whose only segment has an undefined index of a source, and another
source after it. -/
def undefinedSource : List Step :=
  [.read "first" ("A" ++ String.ofList (List.replicate Vlq.endlessPlace 'g') ++ "AAA") ["a.js"] [],
    .includeSource "first" "zzz"]

/-- Without the condition on the values there are indexes that are not
consistent: the source that the table does not have is level with the one that
comes after it. -/
theorem run_undefinedSource :
    let session : Session (Option String) := empty.run undefinedSource
    ∃ index, session.index? "first" = some index ∧ index.Defined ∧
      index.sourceNames = [some "a.js", none, some "zzz"] ∧ ¬index.Consistent := by
  intro session
  have listed : (session.index? "first").map OriginIndex.sourceNames =
      some [some "a.js", none, some "zzz"] := by
    decide +kernel
  obtain ⟨index, held, sourceNames⟩ := Option.map_eq_some_iff.mp listed
  have checked : ∀ index ∈ session.index? "first", index.Defined ∧
      compareSources index.order none (some "zzz") = some .eq := by
    decide +kernel
  obtain ⟨defined, level⟩ := checked index held
  refine ⟨index, held, defined, sourceNames, fun consistent => ?_⟩
  have ascending := consistent.sources.ascending
  rw [show index.sources.keys = _ from sourceNames] at ascending
  simp [level] at ascending

end Session
end SourceMap

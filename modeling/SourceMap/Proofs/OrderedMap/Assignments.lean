import SourceMap.Proofs.Number.Order
import SourceMap.Proofs.OriginIndex.SourceOrder

/-!
# Ordered maps as finite assignments

Seen from outside, an ordered map is an assignment of values to finitely many keys
that is read out in ascending order. An assignment only knows the value last set
for each key; it has neither a list nor a search. Whatever calls a map is given,
and in whatever order, it answers every one of them as its assignment does, and
the history of the calls shows nowhere else.

A map holds an assignment if a look-up finds what is assigned and the list
ascends. A look-up goes to the table and a listing to the list, so the agreement
of the two, which every insertion has to keep on both of its ways, is what makes
the listing one of the assignment. The calls may ask for keys of any kind; only
those that are set must be in the strict order. A map with an undefined number
among its keys is therefore not covered.
-/

namespace SourceMap.OrderedMap

/-- An assignment of values to finitely many keys. -/
abbrev Assignment (κ α : Type) := Finmap fun _ : κ => α

/-- What a map can be asked. -/
inductive Call (κ α : Type) where
  | set (key : κ) (value : α)
  | get (key : κ)
  | has (key : κ)
  | size
  | keys
  | values
  | entries

/-- What a map can answer. -/
inductive Answer (κ α : Type) where
  /-- A value was set. -/
  | done
  | value (found : Option α)
  | flag (present : Bool)
  | size (count : Nat)
  | keys (listed : List κ)
  | values (listed : List α)
  | entries (listed : List (κ × α))
deriving DecidableEq

section Reference

variable {κ α : Type} [DecidableEq κ]

/-- The assignment after a call. -/
def Assignment.after (assignment : Assignment κ α) : Call κ α → Assignment κ α
  | .set key value => assignment.insert key value
  | _ => assignment

/-- What calls assign: to every key the value last set. -/
def assigned (calls : List (Call κ α)) : Assignment κ α := calls.foldl Assignment.after ∅

/-- Entries that list an assignment in ascending order of its keys. -/
structure Lists (compare : κ → κ → Option Ordering) (assignment : Assignment κ α)
    (entries : List (κ × α)) : Prop where
  ascending : Ascending compare entries
  mem_iff : ∀ key value, (key, value) ∈ entries ↔ assignment.lookup key = some value

/-- The answer that an assignment gives to a call. -/
inductive Answers (compare : κ → κ → Option Ordering) (assignment : Assignment κ α) :
    Call κ α → Answer κ α → Prop
  | set (key : κ) (value : α) : Answers compare assignment (.set key value) .done
  | get (key : κ) : Answers compare assignment (.get key) (.value (assignment.lookup key))
  | has (key : κ) : Answers compare assignment (.has key) (.flag (decide (key ∈ assignment)))
  | size : Answers compare assignment .size (.size assignment.keys.card)
  | keys {entries : List (κ × α)} (lists : Lists compare assignment entries) :
      Answers compare assignment .keys (.keys (entries.map Prod.fst))
  | values {entries : List (κ × α)} (lists : Lists compare assignment entries) :
      Answers compare assignment .values (.values (entries.map Prod.snd))
  | entries {entries : List (κ × α)} (lists : Lists compare assignment entries) :
      Answers compare assignment .entries (.entries entries)

/-- The answers that an assignment gives to calls one after the other. -/
inductive AnswersAll (compare : κ → κ → Option Ordering) :
    Assignment κ α → List (Call κ α) → List (Answer κ α) → Prop
  | nil (assignment : Assignment κ α) : AnswersAll compare assignment [] []
  | cons {assignment : Assignment κ α} {call : Call κ α} {rest : List (Call κ α)}
      {answer : Answer κ α} {answers : List (Answer κ α)}
      (here : Answers compare assignment call answer)
      (later : AnswersAll compare (assignment.after call) rest answers) :
      AnswersAll compare assignment (call :: rest) (answer :: answers)

/-- Whether calls only set valid keys. -/
def SetsOnly (valid : κ → Prop) (calls : List (Call κ α)) : Prop :=
  ∀ key value, Call.set key value ∈ calls → valid key

end Reference

variable {κ α : Type} [DecidableEq κ] {compare : κ → κ → Option Ordering} {valid : κ → Prop}

/-- The map after a call. -/
def after (map : OrderedMap compare α) : Call κ α → OrderedMap compare α
  | .set key value => map.insert key value
  | _ => map

/-- The answer that a map gives to a call. -/
def answer (map : OrderedMap compare α) : Call κ α → Answer κ α
  | .set _ _ => .done
  | .get key => .value (map.get? key)
  | .has key => .flag (map.contains key)
  | .size => .size map.size
  | .keys => .keys map.keys
  | .values => .values map.values
  | .entries => .entries map.entries

/-- The answers that a map gives to calls one after the other. -/
def answers (map : OrderedMap compare α) : List (Call κ α) → List (Answer κ α)
  | [] => []
  | call :: rest => map.answer call :: (map.after call).answers rest

/-- A map that holds an assignment: it is sound, its keys are valid, and a
look-up finds what is assigned. The list is not mentioned, since a sound map has
only one for what its look-up finds. -/
structure Represents (valid : κ → Prop) (map : OrderedMap compare α)
    (assignment : Assignment κ α) : Prop where
  sound : Sound valid (fun _ => True) map
  validKeys : ∀ key ∈ map.keys, valid key
  get?_eq : ∀ key, map.get? key = assignment.lookup key

namespace Represents

variable {map : OrderedMap compare α} {assignment : Assignment κ α}

/-- The map without entries holds the assignment to no key. -/
theorem empty : Represents valid (OrderedMap.empty : OrderedMap compare α) ∅ where
  sound := .empty
  validKeys := fun _ member => nomatch member
  get?_eq := fun key => by rw [get?_empty, Finmap.lookup_empty]

/-- The keys of a map are those that its assignment assigns a value to. -/
theorem toFinset_keys (represents : Represents valid map assignment) :
    map.keys.toFinset = assignment.keys := by
  ext key
  rw [List.mem_toFinset, mem_keys_iff, contains, represents.get?_eq, Finmap.lookup_isSome,
    Finmap.mem_keys]

/-- The entries of a map are the one list of its assignment. -/
theorem lists_iff (represents : Represents valid map assignment)
    (order : StrictOrder compare valid) {entries : List (κ × α)} :
    Lists compare assignment entries ↔ entries = map.entries := by
  have ascending := represents.sound.ascending represents.validKeys
  have mem_iff (key : κ) (value : α) :
      (key, value) ∈ map.entries ↔ assignment.lookup key = some value := by
    rw [mem_entries_iff, represents.get?_eq]
  refine ⟨fun lists => ?_, fun same => same ▸ ⟨ascending, mem_iff⟩⟩
  refine (ascending.eq_of_mem_iff order lists.ascending ?_ ?_).symm
  · exact fun entry member => represents.validKeys entry.1 (List.mem_map_of_mem member)
  · rintro ⟨key, value⟩
    rw [lists.mem_iff, mem_iff]

/-- A map gives a call the one answer that its assignment gives. From left to
right the answer is determined, since under a strict order an assignment has one
listing; from right to left the map does answer every call. -/
theorem answers_iff (represents : Represents valid map assignment)
    (order : StrictOrder compare valid) {call : Call κ α} {answer : Answer κ α} :
    Answers compare assignment call answer ↔ answer = map.answer call := by
  have lists : Lists compare assignment map.entries := (represents.lists_iff order).mpr rfl
  have size : map.size = assignment.keys.card := by
    rw [← represents.toFinset_keys, keys, List.toFinset_card_of_nodup map.distinct,
      List.length_map, OrderedMap.size]
  have has (key : κ) : map.contains key = decide (key ∈ assignment) := by
    rw [contains, represents.get?_eq, Bool.eq_iff_iff, Finmap.lookup_isSome, decide_eq_true_iff]
  constructor
  · intro answers
    cases answers with
    | set key value => rfl
    | get key => rw [OrderedMap.answer, represents.get?_eq]
    | has key => rw [OrderedMap.answer, has]
    | size => rw [OrderedMap.answer, size]
    | keys listed => rw [(represents.lists_iff order).mp listed, OrderedMap.answer, keys]
    | values listed => rw [(represents.lists_iff order).mp listed, OrderedMap.answer, values]
    | entries listed => rw [(represents.lists_iff order).mp listed, OrderedMap.answer]
  · rintro rfl
    cases call with
    | set key value => exact .set key value
    | get key =>
      rw [OrderedMap.answer, represents.get?_eq]
      exact .get key
    | has key =>
      rw [OrderedMap.answer, has]
      exact .has key
    | size =>
      rw [OrderedMap.answer, size]
      exact .size
    | keys => exact .keys lists
    | values => exact .values lists
    | entries => exact .entries lists

/-- A call that sets nothing but a valid key leaves a map with the assignment
after the call. -/
theorem after (represents : Represents valid map assignment) (order : StrictOrder compare valid)
    {call : Call κ α} {rest : List (Call κ α)} (only : SetsOnly valid (call :: rest)) :
    Represents valid (map.after call) (assignment.after call) := by
  cases call with
  | set key value =>
    refine ⟨represents.sound.insert order key trivial, ?_, ?_⟩
    · intro other member
      rcases (mem_keys_insert map key value other).mp member with rfl | earlier
      · exact only other value List.mem_cons_self
      · exact represents.validKeys other earlier
    · intro other
      rw [OrderedMap.after, Assignment.after, get?_insert]
      by_cases same : other = key
      · subst same
        rw [if_pos rfl, Finmap.lookup_insert]
      · rw [if_neg same, Finmap.lookup_insert_of_ne _ same, represents.get?_eq]
  | get key => exact represents
  | has key => exact represents
  | size => exact represents
  | keys => exact represents
  | values => exact represents
  | entries => exact represents

/-- A map gives calls the answers that its assignment gives. -/
theorem answersAll_iff (represents : Represents valid map assignment)
    (order : StrictOrder compare valid) {calls : List (Call κ α)} (only : SetsOnly valid calls)
    {answers : List (Answer κ α)} :
    AnswersAll compare assignment calls answers ↔ answers = map.answers calls := by
  induction calls generalizing map assignment answers with
  | nil =>
    constructor
    · rintro ⟨⟩
      rfl
    · rintro rfl
      exact .nil assignment
  | cons call rest inductionHypothesis =>
    have further : SetsOnly valid rest := fun key value member =>
      only key value (List.mem_cons_of_mem call member)
    have next := represents.after order only
    constructor
    · rintro (_ | ⟨here, later⟩)
      rw [OrderedMap.answers, (represents.answers_iff order).mp here,
        (inductionHypothesis next further).mp later]
    · rintro rfl
      exact .cons ((represents.answers_iff order).mpr rfl)
        ((inductionHypothesis next further).mpr rfl)

/-- After calls a map holds what they assign. -/
theorem foldl_after (represents : Represents valid map assignment)
    (order : StrictOrder compare valid) {calls : List (Call κ α)} (only : SetsOnly valid calls) :
    Represents valid (calls.foldl OrderedMap.after map)
      (calls.foldl Assignment.after assignment) := by
  induction calls generalizing map assignment with
  | nil => exact represents
  | cons call rest inductionHypothesis =>
    exact inductionHypothesis (represents.after order only) fun key value member =>
      only key value (List.mem_cons_of_mem call member)

end Represents

/-- Ordered maps under any comparison that puts some keys in a strict order,
whatever it says of two equal keys. From the map without entries on, calls that
set such keys only are answered in one way, and it is the way in which an
assignment answers them that knows the last value of each key. So calls that
come to the same assignment leave the same list, in whatever order they came.
The defined numbers are in a strict order, and so are all sources under any list
of them. -/
theorem answers_as_assignment :
    (∀ (κ α : Type) [DecidableEq κ] (compare : κ → κ → Option Ordering) (valid : κ → Prop),
      StrictOrder compare valid →
        (∀ calls : List (Call κ α), SetsOnly valid calls → ∀ answers,
          AnswersAll compare ∅ calls answers ↔
            answers = (OrderedMap.empty : OrderedMap compare α).answers calls) ∧
        ∀ calls others : List (Call κ α), SetsOnly valid calls → SetsOnly valid others →
          assigned calls = assigned others →
            calls.foldl after (OrderedMap.empty : OrderedMap compare α) =
              others.foldl after OrderedMap.empty) ∧
      StrictOrder Number.compare? (· ≠ .nan) ∧
      ∀ order : List String, StrictOrder (compareSources order) fun _ => True := by
  refine ⟨?_, Number.strictOrder, compareSources_strictOrder⟩
  intro κ α _ compare valid order
  refine ⟨fun calls only answers => Represents.empty.answersAll_iff order only, ?_⟩
  intro calls others only onlyOthers same
  have represents : Represents valid (calls.foldl after (OrderedMap.empty : OrderedMap compare α))
      (assigned calls) :=
    Represents.empty.foldl_after order only
  have representsOther : Represents valid
      (others.foldl after (OrderedMap.empty : OrderedMap compare α)) (assigned others) :=
    Represents.empty.foldl_after order onlyOthers
  have lists := (represents.lists_iff order).mpr rfl
  rw [same] at lists
  exact ext ((representsOther.lists_iff order).mp lists)

/-- Between two infinities a number is set twice and an undefined one is asked
for; and the same last values set in another order leave the same map. -/
theorem answers_as_assignment_infinities :
    let calls : List (Call Number String) := [.set 7 "a", .set (.infinite false) "b",
      .set (.infinite true) "c", .set 7 "d", .get 7, .has .nan, .size, .entries]
    let others : List (Call Number String) :=
      [.set (.infinite true) "c", .set (.infinite false) "b", .keys, .set 7 "d"]
    AnswersAll Number.compare? ∅ calls [.done, .done, .done, .done, .value (some "d"), .flag false,
      .size 3, .entries [(.infinite true, "c"), (7, "d"), (.infinite false, "b")]] ∧
      calls.foldl after (OrderedMap.empty : OrderedMap Number.compare? String) =
        others.foldl after OrderedMap.empty := by
  intro calls others
  obtain ⟨refines, numbers, _⟩ := answers_as_assignment
  obtain ⟨answered, settled⟩ := refines Number String Number.compare? (· ≠ .nan) numbers
  have only : SetsOnly (· ≠ .nan) calls := by
    intro key value member
    simp only [calls, List.mem_cons, Call.set.injEq, reduceCtorEq, List.not_mem_nil, or_false]
      at member
    rcases member with ⟨rfl, _⟩ | ⟨rfl, _⟩ | ⟨rfl, _⟩ | ⟨rfl, _⟩ <;> decide
  have onlyOthers : SetsOnly (· ≠ .nan) others := by
    intro key value member
    simp only [others, List.mem_cons, Call.set.injEq, reduceCtorEq, List.not_mem_nil, or_false,
      false_or] at member
    rcases member with ⟨rfl, _⟩ | ⟨rfl, _⟩ | ⟨rfl, _⟩ <;> decide
  refine ⟨(answered calls only _).mpr (by decide +kernel), ?_⟩
  exact settled calls others only onlyOthers (by decide +kernel)

end SourceMap.OrderedMap

import Mathlib

/-!
# Walks that may fail

A walk over a list stops at the first fault, so a walk that ends went well at
every element. What it yields comes from the elements, in their order.

Everything that reads, checks or writes is such a walk, or walks within walks. Two
views of one are kept apart here. The view of success says what the results are,
from what is known of a single step; the view of failure asks for the fault alone
and says that it is the first one found along the elements. The second one makes
the check of an index and the search for its first defect the same thing without a
word about the results.
-/

namespace SourceMap.Walk

variable {ε α β γ : Type}

/-- Two steps succeed exactly if the first one does and the second one does
after it. -/
theorem bind_eq_ok {step : Except ε α} {next : α → Except ε β} {result : β} :
    (step >>= next) = .ok result ↔ ∃ value, step = .ok value ∧ next value = .ok result := by
  cases step with
  | error fault => simp [bind, Except.bind]
  | ok value => simp [bind, Except.bind]

/-- Two steps fail exactly if the first one does, or the second one does after
it. -/
theorem bind_eq_error {step : Except ε α} {next : α → Except ε β} {fault : ε} :
    (step >>= next) = .error fault ↔
      step = .error fault ∨ ∃ value, step = .ok value ∧ next value = .error fault := by
  cases step with
  | error other => simp [bind, Except.bind]
  | ok value => simp [bind, Except.bind]

/-- A step with a changed result fails exactly if the step does, and with the
same fault. -/
theorem map_eq_error {step : Except ε α} {change : α → β} {fault : ε} :
    step.map change = .error fault ↔ step = .error fault := by
  cases step <;> simp [Except.map]

/-- A step with a changed result succeeds exactly if the step does. -/
theorem map_eq_ok {step : Except ε α} {change : α → β} {result : β} :
    step.map change = .ok result ↔ ∃ value, step = .ok value ∧ change value = result := by
  cases step with
  | error fault => simp [Except.map]
  | ok value => simp [Except.map]

/-- A step with a changed fault succeeds exactly if the step does. -/
theorem mapError_eq_ok {δ : Type} {step : Except ε α} {change : ε → δ} {result : α} :
    step.mapError change = .ok result ↔ step = .ok result := by
  cases step <;> simp [Except.mapError]

/-- A step with a changed fault fails exactly if the step does, with the fault
before the change. -/
theorem mapError_eq_error {δ : Type} {step : Except ε α} {change : ε → δ} {fault : δ} :
    step.mapError change = .error fault ↔ ∃ other, step = .error other ∧ change other = fault := by
  cases step <;> simp [Except.mapError]

/-- A step that succeeds has a result. -/
theorem exists_of_isOk {step : Except ε α} (succeeds : step.isOk = true) :
    ∃ result, step = .ok result := by
  cases step with
  | error fault => cases succeeds
  | ok result => exact ⟨result, rfl⟩

/-- A step that has a result succeeds with it. -/
theorem eq_ok_of_toOption {step : Except ε α} {result : α}
    (found : step.toOption = some result) : step = .ok result := by
  cases step with
  | error fault => cases found
  | ok value => exact congrArg Except.ok (Option.some.inj found)

/-- The fault that a step meets. -/
def fault? : Except ε α → Option ε
  | .error fault => some fault
  | .ok _ => none

/-- A step meets a fault exactly if it ends with it. -/
@[simp] theorem fault?_eq_some_iff {step : Except ε α} {fault : ε} :
    fault? step = some fault ↔ step = .error fault := by
  cases step <;> simp [fault?]

/-- A step meets no fault exactly if it has a result. -/
theorem fault?_eq_none_iff {step : Except ε α} :
    fault? step = none ↔ ∃ result, step = .ok result := by
  cases step <;> simp [fault?]

/-- Of two steps the first fault counts. The second one need only be known where
it is taken; where the first step fails, nothing is asked of it. -/
theorem fault?_bind {step : Except ε α} {next : α → Except ε β} {later : Option ε}
    (each : ∀ value, step = .ok value → fault? (next value) = later) :
    fault? (step >>= next) = (fault? step).or later := by
  cases step with
  | error fault => rfl
  | ok value => exact each value rfl

/-- A step with a changed result meets the same fault. -/
theorem fault?_map (step : Except ε α) (change : α → β) :
    fault? (step.map change) = fault? step := by
  cases step <;> rfl

/-- A view that does not look at the numbers of elements needs none. -/
theorem map_zipIdx_fst (view : α → β) (elements : List α) :
    (elements.zipIdx.map fun entry => view entry.1) = elements.map view := by
  calc (elements.zipIdx.map fun entry => view entry.1)
      = (elements.zipIdx.map Prod.fst).map view := by rw [List.map_map, Function.comp_def]
    _ = elements.map view := by rw [List.zipIdx_map_fst]

/-- Parts that do not look at the numbers of elements need none. -/
theorem flatMap_zipIdx_fst (parts : α → List β) (elements : List α) :
    (elements.zipIdx.flatMap fun entry => parts entry.1) = elements.flatMap parts := by
  rw [List.flatMap_def, map_zipIdx_fst, ← List.flatMap_def]

/-- A walk ends exactly if every step does, and each with its result. -/
theorem mapM_eq_ok {step : α → Except ε β} {elements : List α} {results : List β} :
    elements.mapM step = .ok results ↔
      List.Forall₂ (fun element result => step element = .ok result) elements results := by
  induction elements generalizing results with
  | nil =>
    rw [List.forall₂_nil_left_iff, List.mapM_nil]
    exact ⟨fun success => (Except.ok.inj success).symm, fun nothing => nothing ▸ rfl⟩
  | cons element rest inductionHypothesis =>
    rw [List.mapM_cons, bind_eq_ok, List.forall₂_cons_left_iff]
    constructor
    · rintro ⟨first, here, success⟩
      obtain ⟨later, there, success⟩ := bind_eq_ok.mp success
      obtain rfl := Except.ok.inj success
      exact ⟨first, later, here, inductionHypothesis.mp there, rfl⟩
    · rintro ⟨first, later, here, there, rfl⟩
      exact ⟨first, here, bind_eq_ok.mpr ⟨later, inductionHypothesis.mpr there, rfl⟩⟩

/-- A walk yields a result for each element: a view of the results and a
property that they share need only be known at a single element. The elements in
question are those of the list, so what is known of them may be used at each
step. -/
theorem of_mapM {step : α → Except ε β} {view : β → γ} {expected : α → γ} {property : β → Prop}
    {elements : List α} {results : List β} (success : elements.mapM step = .ok results)
    (each : ∀ element ∈ elements, ∀ result, step element = .ok result →
      view result = expected element ∧ property result) :
    results.map view = elements.map expected ∧ ∀ result ∈ results, property result := by
  have steps := mapM_eq_ok.mp success
  clear success
  induction steps with
  | nil => simp
  | @cons element result _ _ here _ inductionHypothesis =>
    obtain ⟨viewed, shared⟩ := each element List.mem_cons_self result here
    obtain ⟨laterViewed, laterShared⟩ := inductionHypothesis fun other member =>
      each other (List.mem_cons_of_mem element member)
    refine ⟨?_, List.forall_mem_cons.mpr ⟨shared, laterShared⟩⟩
    rw [List.map_cons, List.map_cons, viewed, laterViewed]

/-- Where one of the elements of a list has its partner. -/
theorem exists_of_forall₂_append_cons {related : α → β → Prop} {before after : List α}
    {element : α} {partners : List β}
    (all : List.Forall₂ related (before ++ element :: after) partners) :
    ∃ earlier partner later, partners = earlier ++ partner :: later ∧
      List.Forall₂ related before earlier ∧ related element partner := by
  induction before generalizing partners with
  | nil =>
    obtain ⟨partner, later, here, _, rfl⟩ := List.forall₂_cons_left_iff.mp all
    exact ⟨[], partner, later, rfl, .nil, here⟩
  | cons first rest inductionHypothesis =>
    obtain ⟨other, others, here, further, rfl⟩ := List.forall₂_cons_left_iff.mp all
    obtain ⟨earlier, partner, later, rfl, before, found⟩ := inductionHypothesis further
    exact ⟨other :: earlier, partner, later, rfl, .cons here before, found⟩

/-- Every element of a list has a partner. -/
theorem exists_of_forall₂_mem {related : α → β → Prop} {elements : List α} {partners : List β}
    (all : List.Forall₂ related elements partners) {element : α} (member : element ∈ elements) :
    ∃ partner ∈ partners, related element partner := by
  obtain ⟨before, after, rfl⟩ := List.append_of_mem member
  obtain ⟨earlier, partner, later, rfl, _, found⟩ := exists_of_forall₂_append_cons all
  exact ⟨partner, by simp, found⟩

/-- A walk ends if every step does; what the results are is known from what the
elements are. The partners pair elements with results, so this is the converse
of `mapM_eq_ok` for steps whose results are only known up to a relation. -/
theorem exists_mapM_eq_ok {step : α → Except ε β} {given : α → γ → Prop} {found : β → γ → Prop}
    {elements : List α} {partners : List γ} (all : List.Forall₂ given elements partners)
    (each : ∀ element partner, given element partner →
      ∃ result, step element = .ok result ∧ found result partner) :
    ∃ results, elements.mapM step = .ok results ∧ List.Forall₂ found results partners := by
  simp only [mapM_eq_ok]
  induction all with
  | nil => exact ⟨[], .nil, .nil⟩
  | cons first _ inductionHypothesis =>
    obtain ⟨result, here, isFound⟩ := each _ _ first
    obtain ⟨results, there, areFound⟩ := inductionHypothesis
    exact ⟨result :: results, .cons here there, .cons isFound areFound⟩

/-- A walk in parts yields the parts one after the other: a view of the results
and a property that they share need only be known in a single part. The parts
may be empty and of any length.

Proof: by induction on the elements. The fault of a later part is ruled out by
the success of the whole walk, and the views of the parts are joined as the
parts are. -/
theorem of_flatMapM {step : α → Except ε (List β)} {view : β → γ} {expected : α → List γ}
    {property : β → Prop} {elements : List α} {results : List β}
    (success : elements.flatMapM step = .ok results)
    (each : ∀ element ∈ elements, ∀ part, step element = .ok part →
      part.map view = expected element ∧ ∀ result ∈ part, property result) :
    results.map view = elements.flatMap expected ∧ ∀ result ∈ results, property result := by
  induction elements generalizing results with
  | nil =>
    obtain rfl := Except.ok.inj success
    simp
  | cons element rest inductionHypothesis =>
    rw [List.flatMapM_cons, bind_eq_ok] at success
    obtain ⟨first, here, success⟩ := success
    obtain ⟨later, there, success⟩ := bind_eq_ok.mp success
    obtain rfl := Except.ok.inj success
    obtain ⟨viewed, shared⟩ := each element List.mem_cons_self first here
    obtain ⟨laterViewed, laterShared⟩ := inductionHypothesis there fun other member =>
      each other (List.mem_cons_of_mem element member)
    constructor
    · rw [List.map_append, List.flatMap_cons, viewed, laterViewed]
    · intro result member
      rcases List.mem_append.mp member with inside | further
      · exact shared result inside
      · exact laterShared result further

/-- A walk meets the first fault that is found at its elements. The parts of an
element are what is to be looked at there, in order; so a walk within a walk is
described by the one list of all their parts. -/
theorem fault?_mapM {step : α → Except ε β} {parts : α → List γ} {found : γ → Option ε}
    {elements : List α}
    (each : ∀ element ∈ elements, fault? (step element) = (parts element).findSome? found) :
    fault? (elements.mapM step) = (elements.flatMap parts).findSome? found := by
  induction elements with
  | nil => rfl
  | cons element rest inductionHypothesis =>
    have further := inductionHypothesis fun other member =>
      each other (List.mem_cons_of_mem element member)
    rw [List.mapM_cons, List.flatMap_cons, List.findSome?_append, ← each element List.mem_cons_self,
      ← further]
    exact fault?_bind fun _ _ => fault?_map _ _

/-- A walk in parts joins what its steps yield. -/
theorem flatMapM_eq (step : α → Except ε (List β)) (elements : List α) :
    elements.flatMapM step = (elements.mapM step).map List.flatten := by
  induction elements with
  | nil => rfl
  | cons element rest inductionHypothesis =>
    rw [List.flatMapM_cons, List.mapM_cons, inductionHypothesis]
    change Except.bind (step element) _ = Except.map _ (Except.bind (step element) _)
    cases step element with
    | error fault => rfl
    | ok part =>
      change Except.bind (Except.map _ (rest.mapM step)) _ =
        Except.map _ (Except.bind (rest.mapM step) _)
      cases rest.mapM step <;> rfl

/-- A walk in parts meets the first fault that is found at its elements. -/
theorem fault?_flatMapM {step : α → Except ε (List β)} {parts : α → List γ} {found : γ → Option ε}
    {elements : List α}
    (each : ∀ element ∈ elements, fault? (step element) = (parts element).findSome? found) :
    fault? (elements.flatMapM step) = (elements.flatMap parts).findSome? found := by
  rw [flatMapM_eq, fault?_map, fault?_mapM each]

end SourceMap.Walk

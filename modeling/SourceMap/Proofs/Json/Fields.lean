import Mathlib
import SourceMap.Json.Basic

/-!
# The fields of an object

Fields whose names are distinct and do not spell an index stay as they are:
setting them one after the other appends each, and their order of enumeration is
the order in which they were given. Enumerating any fields only changes their
order. A record with a fixed set of fields, some of which may be missing, is
looked up field by field.

Both conditions hold of the fields of a document, whose names are fixed words.
They do not hold of a record of origins, where names are numbers; of such a record
it is used only that enumerating permutes, and how numbers are enumerated is left
to where it matters.
-/

namespace SourceMap
namespace Fields

variable {α ι : Type}

/-- Setting a field that is not there appends it. -/
theorem put_of_not_mem {fields : List (String × α)} {name : String}
    (absent : name ∉ fields.map Prod.fst) (value : α) :
    put fields name value = fields ++ [(name, value)] := by
  have nowhere : fields.any (·.1 == name) = false := by
    rw [List.any_eq_false]
    intro field member same
    exact absent (List.mem_map.mpr ⟨field, member, by simpa using same⟩)
  simp [put, nowhere]

/-- Setting fields with names of their own appends them in their order. -/
theorem foldl_put {fields placed : List (String × α)}
    (distinct : ((placed ++ fields).map Prod.fst).Nodup) :
    fields.foldl (fun placed field => put placed field.1 field.2) placed = placed ++ fields := by
  induction fields generalizing placed with
  | nil => simp
  | cons field rest inductionHypothesis =>
    have absent : field.1 ∉ placed.map Prod.fst := by
      rw [List.map_append, List.map_cons] at distinct
      intro member
      exact (List.disjoint_of_nodup_append distinct) member List.mem_cons_self
    rw [List.foldl_cons, put_of_not_mem absent, inductionHypothesis (by simpa using distinct),
      List.append_assoc, List.singleton_append]

/-- Fields whose names do not spell an index are enumerated in their order. -/
theorem arrange_of_index?_eq_none {fields : List (String × α)}
    (named : ∀ field ∈ fields, index? field.1 = none) : arrange fields = fields := by
  have nothing : indexed fields = [] := by
    rw [indexed, List.filterMap_eq_nil_iff]
    intro field member
    rw [named field member, Option.map_none]
  have all : (fields.filter fun field => (index? field.1).isNone) = fields := by
    rw [List.filter_eq_self]
    intro field member
    rw [named field member, Option.isNone_none]
  rw [arrange, nothing, all, List.mergeSort_nil, List.map_nil, List.nil_append]

/-- The fields that spell an index are those from which it is read. -/
theorem map_snd_indexed (fields : List (String × α)) :
    (indexed fields).map Prod.snd = fields.filter fun field => (index? field.1).isSome := by
  induction fields with
  | nil => rfl
  | cons field rest inductionHypothesis =>
    rw [indexed] at inductionHypothesis ⊢
    cases spelled : index? field.1 with
    | none => simpa [spelled] using inductionHypothesis
    | some index => simpa [spelled] using inductionHypothesis

/-- Enumerating fields leaves none out and adds none. -/
theorem arrange_perm (fields : List (String × α)) : (arrange fields).Perm fields := by
  have sorted := (List.mergeSort_perm (indexed fields)
    fun left right => decide (left.1 ≤ right.1)).map Prod.snd
  rw [map_snd_indexed] at sorted
  have split := List.filter_append_perm (fun field => (index? field.1).isSome) fields
  simp only [Option.not_isSome] at split
  exact (sorted.append_right _).trans split

/-- Enumerating fields with names of their own keeps the names apart. -/
theorem nodup_arrange {fields : List (String × α)} (distinct : (fields.map Prod.fst).Nodup) :
    ((arrange fields).map Prod.fst).Nodup :=
  ((arrange_perm fields).map Prod.fst).nodup_iff.mpr distinct

/-- A field of a record is found under its name, if the record has it. -/
theorem get?_filterMap [DecidableEq ι] {name : ι → String} (distinct : Function.Injective name)
    (value : ι → Option α) (order : List ι) (field : ι) :
    get? (order.filterMap fun other => (value other).map (name other, ·)) (name field) =
      if field ∈ order then value field else none := by
  rw [get?]
  induction order with
  | nil => rfl
  | cons other rest inductionHypothesis =>
    rw [List.filterMap_cons]
    by_cases same : field = other
    · subst same
      cases found : value field with
      | none => simp [inductionHypothesis, found]
      | some stored => simp
    · have different : (name field == name other) = false := by
        simpa using fun equal => same (distinct equal)
      cases found : value other with
      | none => simp [inductionHypothesis, same]
      | some stored => simp [List.lookup_cons, different, inductionHypothesis, same]

/-- The names of the fields that a record has are distinct. -/
theorem nodup_filterMap {name : ι → String} (distinct : Function.Injective name)
    (value : ι → Option α) {order : List ι} (nodup : order.Nodup) :
    ((order.filterMap fun other => (value other).map (name other, ·)).map Prod.fst).Nodup := by
  have names : (order.filterMap fun other => (value other).map (name other, ·)).map Prod.fst =
      (order.filter fun other => (value other).isSome).map name := by
    induction order with
    | nil => rfl
    | cons other rest inductionHypothesis =>
      have later := inductionHypothesis (List.nodup_cons.mp nodup).2
      cases found : value other <;> simp [found, later]
  rw [names]
  exact (nodup.filter _).map distinct

end Fields

/-- Setting fields one after the other gives an object with these fields, if
their names are distinct and do not spell an index. -/
theorem Json.ofFields_eq {fields : List (String × Json)} (distinct : (fields.map Prod.fst).Nodup)
    (named : ∀ field ∈ fields, Fields.index? field.1 = none) :
    ofFields fields = .object fields := by
  rw [ofFields, Fields.foldl_put (by simpa using distinct), List.nil_append,
    Fields.arrange_of_index?_eq_none named]

end SourceMap

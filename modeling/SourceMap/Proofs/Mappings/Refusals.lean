import SourceMap.Proofs.Mappings.Offsets
import SourceMap.Proofs.OriginIndex.Checks

/-!
# What writing refuses

Writing looks at an index before it writes anything, and only this can fail: as
long as the tables fit, all differences that come after the checks are integers
that can be written.

A table fits if its places are coordinates, so up to `2 ^ 52` sources and as many
names. Places of tables are spelled like lines and columns but are not among the
checks, so an index with a longer table would fail in spelling, and the fault
would be another one. The fault of a value that is no coordinate reports the
value; one that cannot be shown is a fault of its own, and its place is not
reported at all.
-/

namespace SourceMap
namespace Mappings

/-- Writing fails exactly if the walk over the index does, and with the same
fault. -/
theorem write_eq_error_iff {index : OriginIndex}
    (sourcesFit : index.sourceNames.length ≤ Coordinate.greatest + 1)
    (namesFit : index.names.length ≤ Coordinate.greatest + 1) {fault : Fault} :
    write index = .error fault ↔ index.placements = .error fault := by
  constructor
  · intro failed
    cases placed : index.placements with
    | error other =>
      rw [write_eq, placed] at failed
      rw [Except.error.inj failed]
    | ok placements =>
      obtain ⟨groups, _, success, _⟩ := exists_write_eq_ok placed sourcesFit namesFit
      cases success.symm.trans failed
  · intro refused
    rw [write_eq]
    exact Walk.bind_eq_error.mpr (Or.inl refused)

/-- Where writing succeeds the walk over the index does. -/
theorem exists_placements_of_write {index : OriginIndex} {written : WrittenMappings}
    (success : write index = .ok written) : ∃ placements, index.placements = .ok placements := by
  rw [write_eq] at success
  obtain ⟨placements, placed, _⟩ := Walk.bind_eq_ok.mp success
  exact ⟨placements, placed⟩

/-- Two targets of one origin, the second one without a column and with a number
for a name. -/
def brokenIndex : OriginIndex :=
  (OriginIndex.empty ["a.ts"]).append "a.ts" 3 1
    [.placed 0 9 none, ⟨some (.number 2), none, some (.number 5)⟩]

/-- A target whose line is an object with a field of the name under which its
text is asked for. -/
def unshownIndex : OriginIndex :=
  (OriginIndex.empty ["a.js"]).append "a.js" 0 0
    [⟨some (.object [("toString", .number 1)]), some (.number 0), none⟩]

end Mappings
end SourceMap

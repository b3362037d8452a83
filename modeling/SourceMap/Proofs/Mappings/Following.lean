import SourceMap.Proofs.Mappings.Reading

/-!
# Following tokens

Reading goes through the tokens of a text with a cursor. What it makes of a part
of them, and where it leaves the cursor, does not depend on what comes after that
part. So a text whose tokens up to some place resolve, and the next one does not,
has the fault of that one.

Following differs from resolving in one point: it returns the cursor. With the
cursor a list of tokens can be cut anywhere and the parts followed in turn, which
is how a claim about the token at some place is stated. Without it only the first
token has a known cursor.
-/

namespace SourceMap
namespace Mappings

variable {σ : Type} [SourceKey σ] {sources : List σ} {names : List String}

/-- The mappings that tokens stand for, from a cursor on, and the cursor that
they leave. -/
def follow (sources : List σ) (names : List String) :
    Cursor → List Token → Except Fault (List (Mapping σ) × Cursor)
  | cursor, [] => .ok ([], cursor)
  | cursor, token :: rest => do
    let (mapping, next) ← token.resolve sources names cursor
    let (mappings, last) ← follow sources names next rest
    return (mapping :: mappings, last)

/-- Following tokens resolves all of them. -/
theorem resolveAll_eq (cursor : Cursor) (tokens : List Token) :
    resolveAll sources names cursor tokens =
      (follow sources names cursor tokens).map Prod.fst := by
  induction tokens generalizing cursor with
  | nil => rfl
  | cons token rest inductionHypothesis =>
    rw [resolveAll, follow]
    cases token.resolve sources names cursor with
    | error fault => rfl
    | ok resolved =>
      obtain ⟨mapping, next⟩ := resolved
      change Except.bind (resolveAll sources names next rest) _ =
        Except.map _ (Except.bind (follow sources names next rest) _)
      rw [inductionHypothesis]
      cases follow sources names next rest <;> rfl

/-- Tokens are followed part by part. A fault in the first part is that of the
whole, and the second part is then not looked at. -/
theorem follow_append (cursor : Cursor) (left right : List Token) :
    follow sources names cursor (left ++ right) =
      follow sources names cursor left >>= fun (here, next) =>
        (follow sources names next right).map fun (later, last) => (here ++ later, last) := by
  induction left generalizing cursor with
  | nil =>
    rw [List.nil_append]
    change _ = Except.map _ (follow sources names cursor right)
    cases follow sources names cursor right <;> rfl
  | cons token rest inductionHypothesis =>
    rw [List.cons_append, follow, follow]
    cases token.resolve sources names cursor with
    | error fault => rfl
    | ok resolved =>
      obtain ⟨mapping, next⟩ := resolved
      change Except.bind (follow sources names next (rest ++ right)) _ =
        Except.bind (Except.bind (follow sources names next rest) _) _
      rw [inductionHypothesis]
      cases follow sources names next rest with
      | error fault => rfl
      | ok followed =>
        change Except.bind (Except.map _ (follow sources names followed.2 right)) _ =
          Except.map _ (follow sources names followed.2 right)
        cases follow sources names followed.2 right <;> rfl

/-- One more token is resolved from where the earlier ones leave the cursor. -/
theorem follow_concat {cursor next last : Cursor} {earlier : List Token} {token : Token}
    {mappings : List (Mapping σ)} {mapping : Mapping σ}
    (followed : follow sources names cursor earlier = .ok (mappings, next))
    (resolved : token.resolve sources names next = .ok (mapping, last)) :
    follow sources names cursor (earlier ++ [token]) = .ok (mappings ++ [mapping], last) := by
  have single : follow sources names next [token] = .ok ([mapping], last) :=
    Walk.bind_eq_ok.mpr ⟨(mapping, last), resolved, rfl⟩
  rw [follow_append]
  exact Walk.bind_eq_ok.mpr ⟨_, followed, Walk.map_eq_ok.mpr ⟨_, single, rfl⟩⟩

/-- Where the tokens up to some place resolve and the next one does not, its
fault is that of the whole, whatever follows. -/
theorem follow_eq_error {cursor next : Cursor} {earlier : List Token} {token : Token}
    {mappings : List (Mapping σ)} {fault : Fault}
    (followed : follow sources names cursor earlier = .ok (mappings, next))
    (failed : token.resolve sources names next = .error fault) (later : List Token) :
    follow sources names cursor (earlier ++ token :: later) = .error fault := by
  have first : follow sources names next (token :: later) = .error fault :=
    Walk.bind_eq_error.mpr (Or.inl failed)
  rw [follow_append]
  exact Walk.bind_eq_error.mpr (Or.inr ⟨_, followed, Walk.map_eq_error.mpr first⟩)

variable [DecidableEq σ]

/-- A text is read exactly if its tokens can be followed. -/
theorem exists_read_eq_ok_iff {text : String} :
    (∃ index, read text sources names = .ok index) ↔
      ∃ mappings cursor,
        follow sources names .start (tokens text.toList) = .ok (mappings, cursor) := by
  simp only [read_eq, resolveAll_eq, Walk.map_eq_ok]
  constructor
  · rintro ⟨_, _, ⟨⟨mappings, cursor⟩, followed, _⟩, _⟩
    exact ⟨mappings, cursor, followed⟩
  · rintro ⟨mappings, cursor, followed⟩
    exact ⟨_, mappings, ⟨(mappings, cursor), followed, rfl⟩, rfl⟩

/-- A text has the fault that following its tokens meets. -/
theorem read_eq_error_iff {text : String} {fault : Fault} :
    read text sources names = .error fault ↔
      follow sources names .start (tokens text.toList) = .error fault := by
  rw [read_eq, resolveAll_eq, Walk.map_eq_error, Walk.map_eq_error]

end Mappings
end SourceMap

import SourceMap.SourceKey

/-!
# The order of sources

Sources are ordered by a list of them: each listed source by its first place in
the list, then the others by code unit. Every two keys compare, so the order has
no gaps.

The list is given when an index is made and stays with it. It need not hold every
source, may hold sources that never come up, and may repeat a source, where only
the first place counts. For keys that are names this is a strict total order,
whatever the list. A key without a name that is not listed compares equal to every
other key that is not listed.
-/

namespace SourceMap

/-- Compare sources by their first places in a list; a source that is not listed
comes after every listed one, and two of these compare by code unit. -/
def compareSources {σ : Type} [DecidableEq σ] [SourceKey σ] (order : List σ) (left right : σ) :
    Option Ordering :=
  some <|
    match order.idxOf? left, order.idxOf? right with
    | some first, some second => Ord.compare first second
    | some _, none => .lt
    | none, some _ => .gt
    | none, none => SourceKey.compareNames left right

end SourceMap

import KeyedSeries.Filter

/-!
# The keys a filter can reach

Comparisons of the key narrow down which rows have to be read at all. The
ranges that a filter yields (`KeyedSeries.Filter.ranges`) cover every key of a
row it accepts; what else it asks of the row is left to its evaluation. An
empty list means that no row can be accepted.
-/

namespace KeyedSeries.Filter

/-- The ranges of keys that compare with `k` as asked. -/
def keyRanges (c : Comparison) (k : Key) : List KeyRange :=
  KeyRange.normalize <| match c with
    | .eq => [.point k]
    | .ne => [⟨Key.first, k⟩, ⟨k.next, Key.top⟩]
    | .lt => [⟨Key.first, k⟩]
    | .le => [⟨Key.first, k.next⟩]
    | .gt => [⟨k.next, Key.top⟩]
    | .ge => [⟨k, Key.top⟩]
    | .like => [.full]

mutual

/-- Ranges that cover every key of a row the filter accepts, as a canonical
list. -/
def ranges : Filter → List KeyRange
  | key c k => keyRanges c k
  | const false => []
  | and filters => commonRanges [.full] filters
  | or filters => KeyRange.normalize (allRanges filters)
  | cell .. | cells .. | const true | not _ => [.full]

/-- The part of `reached` that all filters of a list reach. -/
def commonRanges (reached : List KeyRange) : List Filter → List KeyRange
  | [] => reached
  | f :: rest => commonRanges (KeyRange.intersectAll reached f.ranges) rest

/-- The ranges of all filters of a list. -/
def allRanges : List Filter → List KeyRange
  | [] => []
  | f :: rest => f.ranges ++ allRanges rest

end

/-- The ranges of an optional filter; an absent one reaches every key. -/
def reach : Option Filter → List KeyRange
  | none => [.full]
  | some f => f.ranges

end KeyedSeries.Filter

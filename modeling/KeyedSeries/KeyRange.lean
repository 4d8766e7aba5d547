/-!
# Keys and key ranges

A row is addressed by a signed 64-bit key. A **key range** is a half-open
interval of keys, its start included and its stop excluded; filters are turned
into lists of ranges, and reads and trims go by them. Because the stop is
excluded, no range reaches the largest 64-bit number, and that number is
therefore no key a series can store: `KeyedSeries.Key.last` is the one before.

Two lists of ranges can cover the same keys and look different. The list that
`KeyedSeries.KeyRange.normalize` builds is **canonical**
(`KeyedSeries.KeyRange.Canonical`): no range in it is empty, and each stops
strictly before the next one starts.
-/

namespace KeyedSeries

/-- The key of a row. -/
abbrev Key := Int64

namespace Key

/-- The largest number a key can be written as; it only serves as an excluded
stop. -/
def top : Key := Int64.maxValue

/-- The smallest key. -/
def first : Key := Int64.minValue

/-- The largest key a series can store. -/
def last : Key := top - 1

/-- The next key; the largest number is its own successor. -/
def next (k : Key) : Key := if k = top then top else k + 1

end Key

/-- The keys from `start` on that come before `stop`. -/
structure KeyRange where
  /-- The first key of the range. -/
  start : Key
  /-- The first key behind the range. -/
  stop : Key
  deriving DecidableEq, Repr, Inhabited

namespace KeyRange

/-- All keys a series can store. -/
def full : KeyRange := ⟨Key.first, Key.top⟩

/-- One key. -/
def point (k : Key) : KeyRange := ⟨k, k.next⟩

/-- Whether the range holds no key. -/
def isEmpty (r : KeyRange) : Bool := r.stop ≤ r.start

/-- Whether the key lies in the range. -/
def contains (r : KeyRange) (k : Key) : Bool := r.start ≤ k && k < r.stop

/-- The keys of both ranges, as one range that may be empty. -/
def meet (a b : KeyRange) : KeyRange := ⟨max a.start b.start, min a.stop b.stop⟩

/-- The overlap of two ranges; `none` if they have no key in common. -/
def intersect? (a b : KeyRange) : Option KeyRange :=
  if (a.meet b).isEmpty then none else some (a.meet b)

/-- Whether some range of the list holds the key. -/
def anyContains (rs : List KeyRange) (k : Key) : Bool := rs.any (·.contains k)

/-! ### Canonical lists -/

/-- Ranges go by their start, and by their stop where they start together. -/
def precedes (a b : KeyRange) : Bool := a.start < b.start || (a.start == b.start && a.stop ≤ b.stop)

/-- Puts a range before the first one it does not come after. -/
def place (r : KeyRange) : List KeyRange → List KeyRange
  | [] => [r]
  | r' :: rest => if r.precedes r' then r :: r' :: rest else r' :: place r rest

/-- The ranges in order. -/
def sort (rs : List KeyRange) : List KeyRange := rs.foldr place []

/-- Extends `current` over the ranges that start in it or right behind it. -/
def absorb (current : KeyRange) : List KeyRange → List KeyRange
  | [] => [current]
  | r :: rest =>
    if r.start ≤ current.stop then absorb ⟨current.start, max current.stop r.stop⟩ rest
    else current :: absorb r rest

/-- Joins the ranges of an ordered list that overlap or touch. -/
def coalesce : List KeyRange → List KeyRange
  | [] => []
  | r :: rest => absorb r rest

/-- The canonical list of the keys that a list of ranges covers. -/
def normalize (rs : List KeyRange) : List KeyRange :=
  coalesce (sort (rs.filter fun r => !r.isEmpty))

/-- The canonical list of the keys that both lists cover. -/
def intersectAll (as bs : List KeyRange) : List KeyRange :=
  normalize (as.flatMap fun a => bs.filterMap a.intersect?)

/-- A list without empty ranges in which each range stops strictly before the
next one starts. -/
def Canonical (rs : List KeyRange) : Prop :=
  (∀ r ∈ rs, r.start < r.stop) ∧ rs.Pairwise fun a b => a.stop < b.start

/-! ### Text -/

/-- A range is shown as `[start, stop)`. -/
def text (r : KeyRange) : String := s!"[{r.start.toInt}, {r.stop.toInt})"

end KeyRange

end KeyedSeries

import KeyedSeries.KeyRange
import KeyedSeries.Value.Order

/-!
# Filters

A filter is a predicate over one row: comparisons of its key, of the value
under a path, or of the values under two paths, joined by `and`, `or` and
`not`. This module holds the filters themselves and their text; what they say
about a row is in `KeyedSeries.Filter.Evaluation`, which keys they can reach in
`KeyedSeries.Filter.Reach`.

Where a filter is optional, its absence says nothing and so accepts every row.
`KeyedSeries.Filter.combine` joins two optional filters, and
`KeyedSeries.Filter.conjuncts` takes a filter apart into what all has to hold.
-/

namespace KeyedSeries

/-- How two things are compared. -/
inductive Comparison where
  /-- Equal. -/
  | eq
  /-- Ordered, but not equal. -/
  | ne
  /-- Smaller. -/
  | lt
  /-- Smaller or equal. -/
  | le
  /-- Larger. -/
  | gt
  /-- Larger or equal. -/
  | ge
  /-- The whole text matches a pattern. -/
  | like
  deriving DecidableEq, Repr

namespace Comparison

/-- Whether the comparison holds of two things in this order. Patterns say nothing
about order. -/
def holds : Comparison → Ordering → Bool
  | eq, o => o == .eq
  | ne, o => o != .eq
  | lt, o => o == .lt
  | le, o => o != .gt
  | gt, o => o == .gt
  | ge, o => o != .lt
  | like, _ => false

/-- The sign of the comparison. -/
def sign : Comparison → String
  | eq => "=="
  | ne => "!="
  | lt => "<"
  | le => "<="
  | gt => ">"
  | ge => ">="
  | like => "like"

/-- All comparisons. -/
def all : List Comparison := [eq, ne, lt, le, gt, ge, like]

end Comparison

/-- A predicate over one row. -/
inductive Filter where
  /-- Compares the key of the row. -/
  | key (c : Comparison) (k : Key)
  /-- Compares the value under a path. -/
  | cell (path : String) (c : Comparison) (v : Value)
  /-- Compares the values under two paths. -/
  | cells (left : String) (c : Comparison) (right : String)
  /-- Always or never. -/
  | const (b : Bool)
  /-- All of the filters. -/
  | and (filters : List Filter)
  /-- Some of the filters. -/
  | or (filters : List Filter)
  /-- The opposite of the filter. -/
  | not (filter : Filter)

namespace Filter

/-- Both filters; an absent one adds nothing. -/
def combine : Option Filter → Option Filter → Option Filter
  | some a, some b => some (and [a, b])
  | some a, none => some a
  | none, b => b

mutual

/-- What has to hold for the filter to hold: the operands of its outermost
conjunctions, in order. -/
def conjuncts : Filter → List Filter
  | and filters => allConjuncts filters
  | f => [f]

/-- What has to hold for all filters of a list to hold. -/
def allConjuncts : List Filter → List Filter
  | [] => []
  | f :: rest => f.conjuncts ++ allConjuncts rest

end

mutual

/-- The filter as it is shown. -/
def text : Filter → String
  | key c k => "key " ++ c.sign ++ " " ++ toString k.toInt
  | cell path c v => path ++ " " ++ c.sign ++ " " ++ v.display
  | cells left c right => left ++ " " ++ c.sign ++ " " ++ right
  | const b => if b then "true" else "false"
  | and filters => "(" ++ " && ".intercalate (texts filters) ++ ")"
  | or filters => "(" ++ " || ".intercalate (texts filters) ++ ")"
  | not f => "!(" ++ f.text ++ ")"

/-- The filters of a list as they are shown. -/
def texts : List Filter → List String
  | [] => []
  | f :: rest => f.text :: texts rest

end

end Filter

end KeyedSeries

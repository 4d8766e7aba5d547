import KeyedSeries.Filter
import KeyedSeries.OrderedMap
import KeyedSeries.Regex.Meaning

/-!
# What a filter says about a row

A comparison with something that is absent, or of another kind, is false; so is
a pattern that cannot be read. Patterns are costly to prepare, so a filter can
be made ready for many rows (`KeyedSeries.Filter.prepare`): the patterns it
holds itself are then prepared once. A pattern that a row supplies is looked up
among them too, and prepared on the spot if it is not there.

Preparation is only a matter of cost. `KeyedSeries.Filter.accepts` is the plain
evaluation that prepares every pattern anew.
-/

namespace KeyedSeries

/-- What a filter can ask of a row: its key, and the value under a path. -/
structure FilterRow where
  /-- The key of the row. -/
  key : Key
  /-- The value under a path, if the row has one there. -/
  value : String → Option Value

/-- The regular expression of a pattern that has to match a whole text. -/
def wholeText? [PatternLibrary] (pattern : String) : Option Regex :=
  Regex.ofPattern? ("^(?:" ++ pattern ++ ")$")

/-- Whether an optional regular expression matches a text; an absent one matches
none. -/
def matchesText (r : Option Regex) (text : String) : Bool :=
  match r with
  | some r => r.isMatch text
  | none => false

namespace Filter

/-! ### Plain evaluation -/

/-- Whether two values compare as asked, by way of `regex` where the second one is
a pattern. -/
def compareWith (regex : String → Option Regex) (actual : Value) (c : Comparison)
    (expected : Value) : Bool :=
  match c with
  | .like =>
    match actual.text?, expected.text? with
    | some text, some pattern => matchesText (regex pattern) text
    | _, _ => false
  | c =>
    match actual.compare? expected with
    | some o => c.holds o
    | none => false

mutual

/-- Whether the filter accepts the row, by way of `regex` for patterns. -/
def acceptsWith (regex : String → Option Regex) (row : FilterRow) : Filter → Bool
  | key c k => c.holds (compare row.key k)
  | cell path c v =>
    match row.value path with
    | some actual => compareWith regex actual c v
    | none => false
  | cells left c right =>
    match row.value left, row.value right with
    | some l, some r => compareWith regex l c r
    | _, _ => false
  | const b => b
  | and filters => allAcceptWith regex row filters
  | or filters => anyAcceptsWith regex row filters
  | not f => !f.acceptsWith regex row

/-- Whether all filters of a list accept the row. -/
def allAcceptWith (regex : String → Option Regex) (row : FilterRow) : List Filter → Bool
  | [] => true
  | f :: rest => f.acceptsWith regex row && allAcceptWith regex row rest

/-- Whether some filter of a list accepts the row. -/
def anyAcceptsWith (regex : String → Option Regex) (row : FilterRow) : List Filter → Bool
  | [] => false
  | f :: rest => f.acceptsWith regex row || anyAcceptsWith regex row rest

end

/-- Whether the filter accepts the row. -/
def accepts [PatternLibrary] (f : Filter) (row : FilterRow) : Bool :=
  f.acceptsWith wholeText? row

/-! ### Prepared filters -/

/-- Prepared patterns by their text; one that cannot be read is kept as such. -/
abbrev PatternTable := OrderedMap String (Option Regex)

mutual

/-- Adds the patterns that the filter holds itself to a table. -/
def addPatterns [PatternLibrary] (table : PatternTable) : Filter → PatternTable
  | cell _ .like v =>
    match v.text? with
    | some pattern =>
      if table.contains pattern then table else table.insert pattern (wholeText? pattern)
    | none => table
  | and filters => addAllPatterns table filters
  | or filters => addAllPatterns table filters
  | not f => f.addPatterns table
  | key .. | cell .. | cells .. | const _ => table

/-- Adds the patterns of all filters of a list to a table. -/
def addAllPatterns [PatternLibrary] (table : PatternTable) : List Filter → PatternTable
  | [] => table
  | f :: rest => addAllPatterns (f.addPatterns table) rest

end

end Filter

/-- A filter ready for many rows. -/
structure PreparedFilter where
  /-- The filter. -/
  filter : Filter
  /-- The patterns that the filter holds itself. -/
  patterns : Filter.PatternTable

/-- The filter with its patterns prepared. -/
def Filter.prepare [PatternLibrary] (f : Filter) : PreparedFilter := ⟨f, f.addPatterns .empty⟩

namespace PreparedFilter

/-- A pattern as it was prepared, or prepared on the spot. -/
def regex [PatternLibrary] (p : PreparedFilter) (pattern : String) : Option Regex :=
  match p.patterns.get? pattern with
  | some r => r
  | none => wholeText? pattern

/-- Whether the filter accepts the row. -/
def accepts [PatternLibrary] (p : PreparedFilter) (row : FilterRow) : Bool :=
  p.filter.acceptsWith p.regex row

end PreparedFilter

end KeyedSeries

import KeyedSeries.Filter.Evaluation
import KeyedSeries.Series.Table

/-!
# Rows

Tables are merged by key: there is a row for every key under which some table
has a record, and in it a value, or none, for every table
(`KeyedSeries.Rows.ofTables`). Rows go by ascending key. A path stands for the
first column of that name.
-/

namespace KeyedSeries

/-- The values under one key, one place for every column. -/
structure Row where
  /-- The key. -/
  key : Key
  /-- The values. -/
  values : List (Option Value)
  deriving DecidableEq, Repr

/-- Rows under a header. -/
structure Rows where
  /-- The columns. -/
  header : List SeriesInfo
  /-- The rows. -/
  rows : List Row
  deriving DecidableEq

/-- The place of the first column of a name. -/
def columnOf? (header : List SeriesInfo) (name : String) : Option Nat :=
  header.findIdx? (·.path == name)

namespace Row

/-- The value in the first column of a name. -/
def get? (header : List SeriesInfo) (r : Row) (name : String) : Option Value :=
  (columnOf? header name).bind fun i => r.values[i]?.join

/-- The row as filters see it. -/
def forFilter (header : List SeriesInfo) (r : Row) : FilterRow := ⟨r.key, r.get? header⟩

/-- The row as it is shown. -/
def text (r : Row) : String :=
  r.values.foldl (fun s v => s ++ "\t" ++ (v.map (·.display)).getD "null") (toString r.key.toInt)

end Row

namespace Rows

/-- No columns and no rows. -/
def empty : Rows := ⟨[], []⟩

/-- The records of a table by key; of several under one key the last one. -/
def byKey (t : Table) : OrderedMap Key Value := .ofList (t.records.map fun r => (r.key, r.value))

/-- The keys of tables, each of them once and in ascending order. -/
def keysOf (tables : List (OrderedMap Key Value)) : List Key :=
  (OrderedMap.ofList ((tables.flatMap (·.keys)).map (·, ()))).keys

/-- All rows of tables. -/
def merge (tables : List (OrderedMap Key Value)) : List Row :=
  (keysOf tables).map fun k => ⟨k, tables.map (·.get? k)⟩

/-- The rows of named tables that a filter accepts; an absent filter accepts
all. -/
def ofTables (tables : List (String × Table)) (filter : Option Filter) : Rows :=
  let header := tables.map fun (name, t) => ⟨name, t.dataType, t.tags⟩
  let rows := merge (tables.map fun (_, t) => byKey t)
  match filter with
  | none => ⟨header, rows⟩
  | some f =>
    let ready := f.prepare
    ⟨header, rows.filter fun r => ready.accepts (r.forFilter header)⟩

end Rows

end KeyedSeries

import KeyedSeries.Engine
import KeyedSeries.Proofs.DataView.Encoding
import KeyedSeries.Proofs.FilePath
import KeyedSeries.Proofs.OrderedMap
import KeyedSeries.Series.Document

/-!
# Catalogs

A catalog is what the units of an engine hold when files are put out of mind: a map
from **addresses**, a unit and the segments of a path, to the type, the tags and the
records of a series. Every call that an engine answers has its meaning on catalogs
(`KeyedSeries.Call.onCatalog`):

* an insertion goes through the columns from left to right. A series that is not
  there stays away if its column has no cells; otherwise the cells are added and the
  tags replaced. **The first cell that is not of its series' type ends it**, and the
  columns before it stay (`KeyedSeries.Catalog.insertColumns`);
* a removal without ranges takes series away, and with ranges only their records
  (`KeyedSeries.Catalog.delete`);
* a projection shows the series that are asked for, in the order of their addresses
  (`KeyedSeries.Catalog.project`), and the schema says what series there are
  (`KeyedSeries.Catalog.schema`).
-/

namespace KeyedSeries

/-- The address of a series: its unit and the segments of its path. -/
abbrev Address := List String

/-- Series by address. -/
abbrev Catalog := OrderedMap Address Document

/-- A cell that is not of the type of its series. -/
structure Clash where
  /-- The series. -/
  address : Address
  /-- Its type. -/
  expected : DataType
  /-- The type of the cell. -/
  found : DataType
  /-- The key of the cell. -/
  key : Key
  deriving DecidableEq

/-- The failure that a clash is to a store, in files below a root. -/
def Clash.cause (root : Place) (c : Clash) : Failure :=
  .argument (.valueType (.ofPlace (root ++ c.address)) c.expected c.found c.key)

/-- The failure that a clash is to a caller. -/
def Clash.failure (root : Place) (c : Clash) : Failure := .task .insert (c.cause root)

/-- The present cells of a series of a view, by ascending key. -/
def DataView.cells (view : DataView) (i : Nat) : List (Key × Value) :=
  (view.keys.zip (view.column i)).filterMap fun (key, cell) => cell.map (key, ·)

namespace Catalog

/-! ### Addresses -/

/-- The path that segments make. -/
def pathOf (segments : List String) : String :=
  (String.singleton Location.separator).intercalate segments

/-- Whether a list of paths asks for a path: it stands in the list, or a glob of the
list matches it. -/
def asksFor (paths : List String) (path : String) : Bool :=
  paths.any fun asked => if Glob.isGlob asked then Glob.accepts asked path else asked == path

/-- Whether an address is one of a unit. -/
def inUnit (unit : String) (a : Address) : Bool := a.head? == some unit

/-- Whether a series is one of a unit that paths ask for and whose tags are
accepted. -/
def selects (unit : String) (paths : List String) (tags : Option TagFilter) (a : Address)
    (doc : Document) : Bool :=
  inUnit unit a && asksFor paths (pathOf a.tail) && TagFilter.accepts tags doc.tags

/-! ### Changing a catalog -/

/-- Adds cells to a series and replaces its tags. -/
def upsert (c : Catalog) (a : Address) (series : SeriesInfo) (cells : List (Key × Value)) :
    Except Clash Catalog :=
  match c.get? a with
  | none =>
    if cells.isEmpty then .ok c else .ok (c.insert a ⟨series.dataType, series.tags, .ofList cells⟩)
  | some doc =>
    match cells.find? fun cell => cell.2.dataType != doc.dataType with
    | some (key, v) => .error ⟨a, doc.dataType, v.dataType, key⟩
    | none =>
      .ok (c.insert a ⟨doc.dataType, series.tags,
        cells.foldl (fun records cell => records.insert cell.1 cell.2) doc.records⟩)

/-- Adds the cells of columns to the series of a unit, up to the first clash. -/
def insertColumns (unit : String) : Catalog → List (SeriesInfo × List (Key × Value)) →
    Except Clash Unit × Catalog
  | c, [] => (.ok (), c)
  | c, (series, cells) :: rest =>
    match c.upsert (unit :: Location.segments series.path) series cells with
    | .ok c => insertColumns unit c rest
    | .error clash => (.error clash, c)

/-- Adds the present cells of a view to the series of a unit. -/
def insertView (c : Catalog) (view : DataView) (unit : String) : Except Clash Unit × Catalog :=
  c.insertColumns unit (view.columns.zipIdx.map fun (series, i) => (series, view.cells i))

/-- Removes series of a unit, or, where ranges are given, the records in them. -/
def delete (c : Catalog) (paths : List String) (ranges : List KeyRange) (tags : Option TagFilter)
    (unit : String) : Catalog :=
  if Engine.clearsUnit paths ranges tags then c.filter fun a _ => !inUnit unit a
  else if ranges.isEmpty then c.filter fun a doc => !selects unit paths tags a doc
  else
    c.mapEntries fun a doc =>
      if selects unit paths tags a doc then
        { doc with records := doc.records.filter fun key _ => !KeyRange.anyContains ranges key }
      else doc

/-! ### Reading a catalog -/

/-- What is said of the series at an address. -/
def infoOf (a : Address) (doc : Document) : SeriesInfo := ⟨pathOf a.tail, doc.dataType, doc.tags⟩

/-- The rows of the series of a unit that paths ask for and both filters accept. A
filter that no key can meet shows no columns. -/
def project (c : Catalog) (paths : List String) (tags : Option TagFilter) (filter : Option Filter)
    (unit : String) : Rows :=
  if (Filter.reach filter).isEmpty then .empty
  else
    let found := c.toList.filter fun (a, doc) => selects unit paths tags a doc
    let header := found.map fun (a, doc) => infoOf a doc
    let rows := Rows.merge (found.map (·.2.records))
    match filter with
    | none => ⟨header, rows⟩
    | some f => ⟨header, rows.filter fun r => f.accepts (r.forFilter header)⟩

/-- The series of a unit. -/
def schema (c : Catalog) (unit : String) : List SchemaEntry :=
  (c.toList.filter fun (a, _) => inUnit unit a).map fun (a, doc) => ⟨infoOf a doc, false⟩

end Catalog

/-! ### Calls -/

/-- A call that an engine answers. -/
inductive Call where
  /-- Stores the present cells of a view. -/
  | insert (view : DataView) (unit : String)
  /-- Removes series, or some of their records. -/
  | delete (paths : List String) (ranges : List KeyRange) (tags : Option TagFilter) (unit : String)
  /-- Shows rows. -/
  | project (paths : List String) (tags : Option TagFilter) (filter : Option Filter) (unit : String)
  /-- Shows the series. -/
  | schema (unit : String)

/-- What a call is answered with. -/
inductive Answer where
  /-- It was done. -/
  | done
  /-- With rows. -/
  | rows (rows : Rows)
  /-- With series. -/
  | series (entries : List SchemaEntry)
  deriving DecidableEq

namespace Call

/-- The call as work of an engine. -/
def perform {σ : Type} (e : Engine σ) : Call → Engine.Work σ Answer
  | insert view unit => do
    e.insert view unit
    return .done
  | delete paths ranges tags unit => do
    e.delete paths ranges tags unit
    return .done
  | project paths tags filter unit => do
    return .rows (← e.project paths tags filter unit false)
  | schema unit => do
    return .series (← e.schema unit)

/-- The call on a catalog, and the answer to it. Failures name files below a
root. -/
def onCatalog (root : Place) : Call → Catalog → Except Failure Answer × Catalog
  | insert view unit, c =>
    let (result, c) := c.insertView view unit
    ((result.mapError (Clash.failure root)).map fun _ => .done, c)
  | delete paths ranges tags unit, c => (.ok .done, c.delete paths ranges tags unit)
  | project paths tags filter unit, c => (.ok (.rows (c.project paths tags filter unit)), c)
  | schema unit, c => (.ok (.series (c.schema unit)), c)

end Call

/-- The answers to calls, one after the other. -/
def Catalog.answers (root : Place) : List Call → Catalog → List (Except Failure Answer)
  | [], _ => []
  | call :: rest, c =>
    let (answer, c) := call.onCatalog root c
    answer :: answers root rest c

end KeyedSeries

import KeyedSeries.Failure
import KeyedSeries.Series.Table

/-!
# Data views

A data view is a table of keys and series in which cells may be absent. It is
laid out in **lines**: one for every key, or one for every series. A line has a
mask that shows which of its cells are present, and the list of their values.

A layout may be inconsistent in many ways, and `KeyedSeries.Layout.fault?` names
the first one. A `KeyedSeries.DataView` is a layout without fault.

Its cells become the records of its series in one walk along the lines. By rows
the walk hands the cells of a key out to the series that they belong to
(`KeyedSeries.Layout.encodeRows`); by columns it stays with a series and looks up
the keys of its cells (`KeyedSeries.Layout.encodeColumns`).
-/

namespace KeyedSeries

/-! ### Lines -/

/-- The mask of a line of cells. -/
def maskOf (cells : List (Option Value)) : List Bool := cells.map (·.isSome)

/-- The values of a line of cells. -/
def shown (cells : List (Option Value)) : List Value := cells.filterMap id

/-- The places that a mask shows. -/
def places (mask : List Bool) : List Nat :=
  mask.zipIdx.filterMap fun (present, i) => if present then some i else none

/-! ### Layouts -/

/-- What a line of a layout stands for. -/
inductive Orientation where
  /-- A key. -/
  | rows
  /-- A series. -/
  | columns
  deriving DecidableEq, Repr

/-- A table of keys and series, consistent or not. -/
structure Layout where
  /-- What a line stands for. -/
  orientation : Orientation
  /-- The series. -/
  columns : List SeriesInfo
  /-- The keys. -/
  keys : List Key
  /-- The masks of the lines. -/
  masks : List (List Bool)
  /-- The values of the lines. -/
  values : List (List Value)
  deriving DecidableEq

namespace Layout

/-- How many lines there have to be. -/
def height (l : Layout) : Nat :=
  match l.orientation with
  | .rows => l.keys.length
  | .columns => l.columns.length

/-- How many cells a line has to have. -/
def width (l : Layout) : Nat :=
  match l.orientation with
  | .rows => l.columns.length
  | .columns => l.keys.length

/-- The type that the cell of a line has to have. -/
def expected? (l : Layout) (line place : Nat) : Option DataType :=
  match l.orientation with
  | .rows => l.columns[place]?.map (·.dataType)
  | .columns => l.columns[line]?.map (·.dataType)

/-- The first key that does not come before the next one. -/
def disorder? : List Key → Option (Key × Key)
  | a :: b :: rest => if b ≤ a then some (a, b) else disorder? (b :: rest)
  | _ => none

/-- The first text of a list that stands in it, or in `seen`, before. -/
def repeated? (seen : List String) : List String → Option String
  | [] => none
  | s :: rest => if seen.contains s then some s else repeated? (s :: seen) rest

/-- The first cell of a line that is not of its type. -/
def cellFault? (l : Layout) (line : Nat) (mask : List Bool) (values : List Value) :
    Option ViewFault :=
  ((places mask).zip values).findSome? fun (place, v) =>
    match l.expected? line place with
    | some t => if v.dataType = t then none else some (.cellType line place v t)
    | none => none

/-- The first fault of a line. -/
def lineFault? (l : Layout) (line : Nat) (mask : List Bool) (values : List Value) :
    Option ViewFault :=
  if mask.length ≠ l.width then some (.maskLength line mask.length l.width)
  else if mask.count true ≠ values.length then
    some (.cellCount line (mask.count true) values.length)
  else l.cellFault? line mask values

/-- The first fault of the lines. -/
def linesFault? (l : Layout) : Option ViewFault :=
  (l.masks.zip l.values).zipIdx.findSome? fun ((mask, values), line) =>
    l.lineFault? line mask values

/-- The first fault of a layout. -/
def fault? (l : Layout) : Option ViewFault :=
  match disorder? l.keys with
  | some (key, next) => some (.unordered key next)
  | none =>
    match l.keys.getLast?.filter (Key.last < ·) with
    | some key => some (.keyTooLarge key)
    | none =>
      match repeated? [] (l.columns.map (·.path)) with
      | some path => some (.repeatedPath path)
      | none =>
        if l.masks.length ≠ l.height ∨ l.values.length ≠ l.height then
          some (.lineCount l.height l.masks.length l.values.length)
        else l.linesFault?

/-! ### Records -/

/-- Walks along the lines of keys. Every present cell of a line goes behind the
records that its series has in `pending`. -/
def encodeRows (l : Layout) (pending : List (List Record)) : List (List Record) :=
  (l.keys.zip (l.masks.zip l.values)).foldl (fun pending (key, mask, values) =>
    ((places mask).zip values).foldl (fun pending (place, v) =>
      match l.columns[place]? with
      | some series => pending.modify place (· ++ [⟨key, series.dataType, v⟩])
      | none => pending) pending) pending

/-- Walks along the lines of series. Every present cell of a line goes behind the
records that the series has in `pending`, with the key of its place. -/
def encodeColumns (l : Layout) (pending : List (List Record)) : List (List Record) :=
  (l.columns.zip (l.masks.zip l.values)).zipIdx.foldl (fun pending ((series, mask, values), i) =>
    ((places mask).zip values).foldl (fun pending (place, v) =>
      match l.keys[place]? with
      | some key => pending.modify i (· ++ [⟨key, series.dataType, v⟩])
      | none => pending) pending) pending

end Layout

/-! ### Views -/

/-- A consistent table of keys and series. -/
structure DataView extends Layout where
  /-- The layout has no fault. -/
  consistent : toLayout.fault? = none

namespace DataView

/-- The view of a layout. -/
def ofLayout (l : Layout) : Except ViewFault DataView :=
  match h : l.fault? with
  | none => .ok ⟨l, h⟩
  | some fault => .error fault

/-- The view of a table by rows. -/
def ofRows (columns : List SeriesInfo) (rows : List (Key × List (Option Value))) :
    Except ViewFault DataView :=
  match rows.find? fun (_, cells) => cells.length != columns.length with
  | some (key, cells) => .error (.rowWidth key cells.length columns.length)
  | none =>
    ofLayout
      { orientation := .rows
        columns
        keys := rows.map (·.1)
        masks := rows.map fun (_, cells) => maskOf cells
        values := rows.map fun (_, cells) => shown cells }

/-- The view of a table by columns. -/
def ofColumns (columns : List SeriesInfo) (keys : List Key) (cells : List (List (Option Value))) :
    Except ViewFault DataView :=
  match cells.zipIdx.find? fun (column, _) => column.length != keys.length with
  | some (column, i) => .error (.columnHeight i column.length keys.length)
  | none =>
    ofLayout
      { orientation := .columns
        columns
        keys
        masks := cells.map maskOf
        values := cells.map shown }

/-- The records of every series, in the order of the keys. -/
def encode (v : DataView) : List (List Record) :=
  let pending := v.columns.map fun _ => []
  match v.orientation with
  | .rows => v.encodeRows pending
  | .columns => v.encodeColumns pending

end DataView

end KeyedSeries

import Mathlib.Data.List.Basic
import KeyedSeries.DataView

/-!
# The records of a view

What a view is to its reader is a table of cells, and the records of a series are
the present cells at its place, key by key (`KeyedSeries.DataView.records`). A view
makes its records in another way: it walks along its lines, counts the values off at
the places that a mask shows, and hands each one out. By rows the records of one
series come from all lines, by columns from a single one.

Both walks put records behind lists of records, one at a time, and what they put at
one place comes to the cells there (`KeyedSeries.Layout.encodeRows_eq`,
`KeyedSeries.Layout.encodeColumns_eq`). **A view encodes to its records**, whichever way
it is laid out (`KeyedSeries.DataView.encode_eq_records`).
-/

namespace KeyedSeries

/-! ### Lines -/

/-- The cells of a line: the values go to the places that the mask shows. -/
def expand : List Bool → List Value → List (Option Value)
  | [], _ => []
  | true :: mask, v :: values => some v :: expand mask values
  | true :: mask, [] => none :: expand mask []
  | false :: mask, values => none :: expand mask values

/-- A line made of cells has these cells. -/
theorem expand_shown (cells : List (Option Value)) :
    expand (maskOf cells) (shown cells) = cells := by
  induction cells with
  | nil => rfl
  | cons c rest ih =>
    cases c with
    | none => simpa [maskOf, shown, expand] using ih
    | some v => simpa [maskOf, shown, expand] using ih

/-- A line without values has no present cell. -/
theorem filterMap_expand_nil {α : Type} (n : Nat) (mask : List Bool) (f : Value → Nat → α) :
    (((expand mask []).zipIdx n).filterMap fun (cell, i) => cell.map (f · i)) = [] := by
  induction mask generalizing n with
  | nil => rfl
  | cons present mask ih => cases present <;> simpa [expand] using ih (n + 1)

/-- The values of a line at the places that its mask shows are its present cells. -/
theorem zip_places (mask : List Bool) (values : List Value) :
    (places mask).zip values =
      (expand mask values).zipIdx.filterMap fun (cell, i) => cell.map (i, ·) := by
  have hfrom : ∀ n, ((mask.zipIdx n).filterMap fun place =>
      if place.1 then some place.2 else none).zip values =
        ((expand mask values).zipIdx n).filterMap fun (cell, i) => cell.map (i, ·) := by
    intro n
    induction mask generalizing n values with
    | nil => rfl
    | cons present mask ih =>
      cases present with
      | false => simpa [expand] using ih values (n + 1)
      | true =>
        cases values with
        | nil => simpa [expand] using (filterMap_expand_nil (n + 1) mask fun v i => (i, v)).symm
        | cons v values => simpa [expand] using ih values (n + 1)
  exact hfrom 0

theorem mem_zip_places {mask : List Bool} {values : List Value} {i : Nat} {v : Value} :
    (i, v) ∈ (places mask).zip values ↔ (expand mask values)[i]? = some (some v) := by
  rw [zip_places, List.mem_filterMap]
  constructor
  · rintro ⟨⟨cell, j⟩, hmem, hcell⟩
    obtain ⟨w, rfl, hpair⟩ := Option.map_eq_some_iff.mp hcell
    cases hpair
    exact List.mem_zipIdx_iff_getElem?.mp hmem
  · exact fun h => ⟨(some v, i), List.mem_zipIdx_iff_getElem?.mpr h, rfl⟩

/-! ### Handing out -/

section Hand

variable {α β γ : Type}

/-- Puts a value behind the list at its place. -/
def handOut (pending : List (List α)) (put : Nat × α) : List (List α) :=
  pending.modify put.1 (· ++ [put.2])

/-- What is handed out to a place. -/
def handedTo (i : Nat) (puts : List (Nat × α)) : List α :=
  puts.filterMap fun put => if put.1 = i then some put.2 else none

theorem handedTo_flatMap (i : Nat) (f : β → List (Nat × α)) (l : List β) :
    handedTo i (l.flatMap f) = l.flatMap fun b => handedTo i (f b) := List.filterMap_flatMap

/-- What is handed out to a place stands there in its order, behind what was there. -/
theorem getElem?_foldl_handOut (puts : List (Nat × α)) (pending : List (List α)) (i : Nat) :
    (puts.foldl handOut pending)[i]? = pending[i]?.map (· ++ handedTo i puts) := by
  induction puts generalizing pending with
  | nil => simp [handedTo]
  | cons put puts ih =>
    rw [List.foldl_cons, ih, handOut, List.getElem?_modify]
    by_cases hi : put.1 = i <;> cases pending[i]? <;> simp [handedTo, hi]

/-- Of all that the numbered elements give, only what one of them gives is at its
number. -/
theorem flatMap_zipIdx_at (f : α → List β) (l : List α) (n i : Nat) :
    ((l.zipIdx n).flatMap fun a => if a.2 = n + i then f a.1 else []) = l[i]?.elim [] f := by
  induction l generalizing n i with
  | nil => rfl
  | cons a l ih =>
    cases i with
    | zero =>
      have hrest : ((l.zipIdx (n + 1)).flatMap fun b => if b.2 = n then f b.1 else []) = [] := by
        refine List.flatMap_eq_nil_iff.mpr fun b hb => if_neg ?_
        have hle := List.le_snd_of_mem_zipIdx hb
        omega
      simp [hrest]
    | succ i =>
      have hrest := ih (n + 1) i
      rw [Nat.add_right_comm, Nat.add_assoc] at hrest
      simpa using hrest

/-- Numbered elements that look their partners up are the elements next to them. -/
theorem filterMap_zipIdx_lookup (f : α → β → Option γ) (as : List α) (bs : List β) :
    (bs.zipIdx.filterMap fun (b, i) => as[i]?.bind (f · b)) =
      (as.zip bs).filterMap fun (a, b) => f a b := by
  have hfrom : ∀ n, ((bs.zipIdx n).filterMap fun (b, i) => as[i]?.bind (f · b)) =
      ((as.drop n).zip bs).filterMap fun (a, b) => f a b := by
    intro n
    induction bs generalizing n with
    | nil => simp
    | cons b bs ih =>
      cases ha : as[n]? with
      | none =>
        have hdrop : as.drop n = [] := List.drop_eq_nil_of_le (List.getElem?_eq_none_iff.mp ha)
        have hnext : as.drop (n + 1) = [] := by rw [← List.drop_drop, hdrop, List.drop_nil]
        simp [ha, ih, hdrop, hnext]
      | some a =>
        have hdrop : as.drop n = a :: as.drop (n + 1) := by
          obtain ⟨hn, rfl⟩ := List.getElem?_eq_some_iff.mp ha
          exact List.drop_eq_getElem_cons hn
        simp [List.filterMap_cons, ha, ih, hdrop]
  exact hfrom 0

end Hand

/-! ### What the walks hand out -/

namespace Layout

/-- What the line of a key hands out: its present cells go to the places of their
series. -/
def rowPuts (columns : List SeriesInfo) : Key × List Bool × List Value → List (Nat × Record)
  | (key, mask, values) => ((places mask).zip values).filterMap fun (place, v) =>
    columns[place]?.map fun series => (place, ⟨key, series.dataType, v⟩)

/-- What the line of a series hands out to it: its present cells, with their keys. -/
def columnPuts (keys : List Key) :
    (SeriesInfo × List Bool × List Value) × Nat → List (Nat × Record)
  | ((series, mask, values), i) => ((places mask).zip values).filterMap fun (place, v) =>
    keys[place]?.map fun key => (i, ⟨key, series.dataType, v⟩)

variable (l : Layout) (pending : List (List Record))

theorem encodeRows_eq :
    l.encodeRows pending =
      ((l.keys.zip (l.masks.zip l.values)).flatMap (rowPuts l.columns)).foldl handOut pending := by
  rw [encodeRows, List.foldl_flatMap]
  refine List.foldl_ext _ _ _ fun pending line _ => ?_
  rw [rowPuts, List.foldl_filterMap]
  refine List.foldl_ext _ _ _ fun pending put _ => ?_
  obtain ⟨place, v⟩ := put
  cases hseries : l.columns[place]? <;> simp [hseries, handOut]

theorem encodeColumns_eq :
    l.encodeColumns pending =
      ((l.columns.zip (l.masks.zip l.values)).zipIdx.flatMap (columnPuts l.keys)).foldl handOut
        pending := by
  rw [encodeColumns, List.foldl_flatMap]
  refine List.foldl_ext _ _ _ fun pending line _ => ?_
  rw [columnPuts, List.foldl_filterMap]
  refine List.foldl_ext _ _ _ fun pending put _ => ?_
  obtain ⟨place, v⟩ := put
  cases hkey : l.keys[place]? <;> simp [hkey, handOut]

variable {l} {i : Nat} {series : SeriesInfo}

/-- The record of a cell, if it is present. -/
def recordAt (series : SeriesInfo) (key : Key) (cell : Option Value) : Option Record :=
  cell.map (⟨key, series.dataType, ·⟩)

/-- The records of a column of cells. -/
def recordsAt (series : SeriesInfo) (keys : List Key) (cells : List (Option Value)) : List Record :=
  (keys.zip cells).filterMap fun keyed => recordAt series keyed.1 keyed.2

/-- Of the line of a key a series gets the cell at its place. -/
theorem handedTo_rowPuts (hseries : l.columns[i]? = some series)
    (line : Key × List Bool × List Value) :
    handedTo i (rowPuts l.columns line) =
      (recordAt series line.1 (expand line.2.1 line.2.2)[i]?.join).toList := by
  obtain ⟨key, mask, values⟩ := line
  rw [handedTo, rowPuts, zip_places, List.filterMap_filterMap, List.filterMap_filterMap,
    List.filterMap_eq_flatMap_toList]
  calc _ = (expand mask values).zipIdx.flatMap fun cell =>
        if cell.2 = 0 + i then (recordAt series key cell.1).toList else [] := by
          refine List.flatMap_congr fun cell _ => ?_
          obtain ⟨cell, j⟩ := cell
          rw [Nat.zero_add]
          by_cases hj : j = i
          · subst hj
            cases cell <;> simp [hseries, recordAt]
          · cases cell <;> cases l.columns[j]? <;> simp [hj]
    _ = (expand mask values)[i]?.elim [] fun cell => (recordAt series key cell).toList :=
          flatMap_zipIdx_at (fun cell => (recordAt series key cell).toList) ..
    _ = _ := by cases (expand mask values)[i]? <;> rfl

/-- A series gets all that its line hands out, and nothing of another line. -/
theorem handedTo_columnPuts (keys : List Key)
    (line : (SeriesInfo × List Bool × List Value) × Nat) :
    handedTo i (columnPuts keys line) =
      if line.2 = 0 + i then recordsAt line.1.1 keys (expand line.1.2.1 line.1.2.2) else [] := by
  obtain ⟨⟨series, mask, values⟩, j⟩ := line
  rw [handedTo, columnPuts, zip_places, List.filterMap_filterMap, List.filterMap_filterMap,
    Nat.zero_add]
  by_cases hj : j = i
  · rw [if_pos hj]
    refine Eq.trans (List.filterMap_congr fun cell _ => ?_)
      (filterMap_zipIdx_lookup (recordAt series) keys (expand mask values))
    obtain ⟨cell, place⟩ := cell
    cases cell <;> cases hkey : keys[place]? <;> simp [hj, hkey, recordAt]
  · rw [if_neg hj]
    refine List.filterMap_eq_nil_iff.mpr fun cell _ => ?_
    obtain ⟨cell, place⟩ := cell
    cases cell <;> cases keys[place]? <;> simp [hj]

end Layout

/-! ### The records of the series -/

namespace DataView

/-- The cells of the lines. -/
def lines (v : DataView) : List (List (Option Value)) := List.zipWith expand v.masks v.values

/-- The cells of a series, in the order of the keys. -/
def column (v : DataView) (i : Nat) : List (Option Value) :=
  match v.orientation with
  | .rows => v.lines.map fun cells => cells[i]?.join
  | .columns => v.lines[i]?.getD []

/-- The records of every series, in the order of the keys. -/
def records (v : DataView) : List (List Record) :=
  v.columns.zipIdx.map fun (series, i) =>
    (v.keys.zip (v.column i)).filterMap fun (key, cell) => cell.map (⟨key, series.dataType, ·⟩)

variable {view : DataView} {i : Nat} {series : SeriesInfo}

theorem lines_eq (view : DataView) :
    view.lines = (view.masks.zip view.values).map fun line => expand line.1 line.2 := by
  rw [lines, List.zip, List.map_zipWith]

/-- By rows a series gets the cells at its place, line after line. -/
theorem handedTo_rows (horientation : view.orientation = .rows)
    (hseries : view.columns[i]? = some series) :
    handedTo i ((view.keys.zip (view.masks.zip view.values)).flatMap
        (Layout.rowPuts view.columns)) =
      Layout.recordsAt series view.keys (view.column i) := by
  rw [handedTo_flatMap, Layout.recordsAt, column, horientation]
  simp only [lines_eq, List.map_map, List.zip_map_right, List.filterMap_map]
  rw [List.filterMap_eq_flatMap_toList]
  exact List.flatMap_congr fun line _ => Layout.handedTo_rowPuts hseries line

/-- By columns it gets the cells of its line. -/
theorem handedTo_columns (horientation : view.orientation = .columns)
    (hseries : view.columns[i]? = some series) :
    handedTo i ((view.columns.zip (view.masks.zip view.values)).zipIdx.flatMap
        (Layout.columnPuts view.keys)) =
      Layout.recordsAt series view.keys (view.column i) := by
  have hline : (view.columns.zip (view.masks.zip view.values))[i]? =
      (view.masks.zip view.values)[i]?.map (series, ·) := by
    rw [List.zip, List.getElem?_zipWith, hseries]
    cases (view.masks.zip view.values)[i]? <;> rfl
  have hat := flatMap_zipIdx_at (fun line : SeriesInfo × List Bool × List Value =>
    Layout.recordsAt line.1 view.keys (expand line.2.1 line.2.2))
    (view.columns.zip (view.masks.zip view.values)) 0 i
  rw [handedTo_flatMap,
    List.flatMap_congr fun line _ => Layout.handedTo_columnPuts view.keys line, hat, hline, column,
      horientation, lines_eq]
  cases hmask : (view.masks.zip view.values)[i]? with
  | none => simp [Layout.recordsAt, hmask]
  | some line => simp [hmask]

/-- **A view encodes to its records**: whichever way it is laid out, its walk hands
every series the present cells at its place, in the order of the keys. -/
theorem encode_eq_records (view : DataView) : view.encode = view.records := by
  refine List.ext_getElem? fun i => ?_
  have hpending : (view.columns.map fun _ => ([] : List Record))[i]? =
      view.columns[i]?.map fun _ => [] := List.getElem?_map
  rw [encode, records, List.getElem?_map, List.getElem?_zipIdx]
  cases hseries : view.columns[i]? with
  | none =>
    cases view.orientation <;>
      simp only [Layout.encodeRows_eq, Layout.encodeColumns_eq, getElem?_foldl_handOut, hpending,
        hseries] <;> rfl
  | some series =>
    cases horientation : view.orientation with
    | rows =>
      simp only [Layout.encodeRows_eq, getElem?_foldl_handOut, hpending, hseries,
        handedTo_rows horientation hseries]
      simp [Layout.recordsAt, Layout.recordAt]
    | columns =>
      simp only [Layout.encodeColumns_eq, getElem?_foldl_handOut, hpending, hseries,
        handedTo_columns horientation hseries]
      simp [Layout.recordsAt, Layout.recordAt]

end DataView

end KeyedSeries

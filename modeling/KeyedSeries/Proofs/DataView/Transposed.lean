import KeyedSeries.Proofs.DataView
import KeyedSeries.Proofs.Engine.Action

/-!
# One table, by rows and by columns

A table of keys and series can be given line by line for the keys, or line by line
for the series; the second table is the first one transposed
(`KeyedSeries.transposed`). The two layouts share no mask and no list of values, the
faults that they are searched for come in another order, and the walks that hand out
their records go across each other. What they say is the same: where a layout is made
of lines of cells, its faults are told by the cells
(`KeyedSeries.Layout.fault?_ofCells`), and either walk comes to the records of the
cells (`KeyedSeries.DataView.encode_transposed`).

**The two views are accepted alike, and inserting either has the same outcome**
(`KeyedSeries.Engine.outcome_insert_transposed`).
-/

namespace KeyedSeries

/-! ### Lines of cells -/

theorem mem_zip_places_shown {cells : List (Option Value)} {i : Nat} {v : Value} :
    (i, v) ∈ (places (maskOf cells)).zip (shown cells) ↔ cells[i]? = some (some v) := by
  rw [mem_zip_places, expand_shown]

theorem length_maskOf (cells : List (Option Value)) : (maskOf cells).length = cells.length :=
  List.length_map _

theorem count_maskOf (cells : List (Option Value)) :
    (maskOf cells).count true = (shown cells).length := by
  induction cells with
  | nil => rfl
  | cons cell rest ih =>
    rw [maskOf, shown] at ih
    cases cell with
    | none => simpa [maskOf, shown] using ih
    | some v => simpa [maskOf, shown] using ih

/-! ### Layouts of lines of cells -/

namespace Layout

/-- The layout whose lines have the given cells. -/
def ofCells (orientation : Orientation) (columns : List SeriesInfo) (keys : List Key)
    (cells : List (List (Option Value))) : Layout where
  orientation := orientation
  columns := columns
  keys := keys
  masks := cells.map maskOf
  values := cells.map shown

/-- **A layout without fault**: its keys are in order and not too large, no path
stands twice, there is a line for every key or every series, and no line has a
fault. -/
theorem fault?_eq_none_iff {l : Layout} :
    l.fault? = none ↔
      (disorder? l.keys = none ∧ l.keys.getLast?.filter (Key.last < ·) = none ∧
        repeated? [] (l.columns.map (·.path)) = none) ∧
      (l.masks.length = l.height ∧ l.values.length = l.height) ∧ l.linesFault? = none := by
  rw [fault?]
  cases disorder? l.keys with
  | some pair => simp
  | none =>
    cases l.keys.getLast?.filter (Key.last < ·) with
    | some key => simp
    | none =>
      cases repeated? [] (l.columns.map (·.path)) with
      | some path => simp
      | none =>
        by_cases hlines : l.masks.length = l.height ∧ l.values.length = l.height
        · simp [hlines]
        · have hcount : l.masks.length ≠ l.height ∨ l.values.length ≠ l.height :=
            not_and_or.mp hlines
          simp [hlines, hcount]

variable {orientation : Orientation} {columns : List SeriesInfo} {keys : List Key}
  {cells : List (List (Option Value))}

theorem cellFault?_eq_none_iff {l : Layout} {line : Nat} {row : List (Option Value)} :
    l.cellFault? line (maskOf row) (shown row) = none ↔
      ∀ place v, row[place]? = some (some v) →
        ∀ t, l.expected? line place = some t → v.dataType = t := by
  rw [cellFault?, List.findSome?_eq_none_iff]
  constructor
  · intro h place v hv t ht
    have hcell := h (place, v) (mem_zip_places_shown.mpr hv)
    simpa [ht] using hcell
  · rintro h ⟨place, v⟩ hmem
    have htyped := h place v (mem_zip_places_shown.mp hmem)
    cases ht : l.expected? line place with
    | none => simp [ht]
    | some t => simp [ht, htyped t ht]

/-- A line has no fault if it is as wide as it has to be and its present cells are of
their types. -/
theorem lineFault?_eq_none_iff {l : Layout} {line : Nat} {row : List (Option Value)} :
    l.lineFault? line (maskOf row) (shown row) = none ↔
      row.length = l.width ∧ ∀ place v, row[place]? = some (some v) →
        ∀ t, l.expected? line place = some t → v.dataType = t := by
  rw [lineFault?, length_maskOf, count_maskOf, ← cellFault?_eq_none_iff]
  by_cases hwidth : row.length = l.width <;> simp [hwidth]

theorem linesFault?_ofCells :
    (ofCells orientation columns keys cells).linesFault? = none ↔
      ∀ line row, cells[line]? = some row →
        (ofCells orientation columns keys cells).lineFault? line (maskOf row) (shown row) =
          none := by
  rw [linesFault?, List.findSome?_eq_none_iff]
  constructor
  · intro h line row hrow
    refine h ((maskOf row, shown row), line) ?_
    rw [List.mem_zipIdx_iff_getElem?, List.getElem?_zip_eq_some]
    simp [ofCells, hrow]
  · rintro h ⟨⟨mask, values⟩, line⟩ hmem
    rw [List.mem_zipIdx_iff_getElem?, List.getElem?_zip_eq_some] at hmem
    simp only [ofCells, List.getElem?_map, Option.map_eq_some_iff] at hmem
    obtain ⟨⟨row, hrow, rfl⟩, ⟨row', hrow', rfl⟩⟩ := hmem
    rw [hrow] at hrow'
    cases hrow'
    exact h line row hrow

/-- **The faults of a layout of cells**: besides keys and paths only the shape of the
table and the types of the cells matter. -/
theorem fault?_ofCells :
    (ofCells orientation columns keys cells).fault? = none ↔
      (disorder? keys = none ∧ keys.getLast?.filter (Key.last < ·) = none ∧
        repeated? [] (columns.map (·.path)) = none) ∧
      cells.length = (ofCells orientation columns keys cells).height ∧
      (∀ row ∈ cells, row.length = (ofCells orientation columns keys cells).width) ∧
      ∀ line row, cells[line]? = some row → ∀ place v, row[place]? = some (some v) →
        ∀ t, (ofCells orientation columns keys cells).expected? line place = some t →
          v.dataType = t := by
  rw [fault?_eq_none_iff, linesFault?_ofCells]
  simp only [lineFault?_eq_none_iff]
  refine and_congr Iff.rfl (and_congr ?_ ?_)
  · simp [ofCells]
  · constructor
    · refine fun h => ⟨fun row hrow => ?_, fun line row hrow => (h line row hrow).2⟩
      obtain ⟨line, hline⟩ := List.mem_iff_getElem?.mp hrow
      exact (h line row hline).1
    · exact fun h line row hrow => ⟨h.1 row (List.mem_of_getElem? hrow), h.2 line row hrow⟩

end Layout

/-! ### Transposed tables -/

/-- The lines of a table by series, from its lines by keys. -/
def transposed (width : Nat) (table : List (List (Option Value))) : List (List (Option Value)) :=
  (List.range width).map fun i => table.map fun row => row[i]?.join

@[simp] theorem length_transposed (width : Nat) (table : List (List (Option Value))) :
    (transposed width table).length = width := by simp [transposed]

theorem length_of_mem_transposed {width height : Nat} {table : List (List (Option Value))}
    (hheight : table.length = height) :
    ∀ column ∈ transposed width table, column.length = height := by
  intro column hcolumn
  obtain ⟨i, -, rfl⟩ := List.mem_map.mp hcolumn
  rw [List.length_map, hheight]

theorem getElem?_transposed {width i : Nat} {table : List (List (Option Value))} (h : i < width) :
    (transposed width table)[i]? = some (table.map fun row => row[i]?.join) := by
  simp [transposed, h]

/-- A cell of the transposed table is the cell of the table with line and place
exchanged. -/
theorem cell_transposed {width : Nat} {table : List (List (Option Value))}
    (hwidth : ∀ row ∈ table, row.length = width) {i j : Nat} {v : Value} :
    (∃ column, (transposed width table)[j]? = some column ∧ column[i]? = some (some v)) ↔
      ∃ row, table[i]? = some row ∧ row[j]? = some (some v) := by
  constructor
  · rintro ⟨column, hcolumn, hv⟩
    have hj : j < width := by
      have hlt := (List.getElem?_eq_some_iff.mp hcolumn).1
      rwa [length_transposed] at hlt
    rw [getElem?_transposed hj] at hcolumn
    cases hcolumn
    rw [List.getElem?_map, Option.map_eq_some_iff] at hv
    obtain ⟨row, hrow, hjoin⟩ := hv
    exact ⟨row, hrow, Option.join_eq_some_iff.mp hjoin⟩
  · rintro ⟨row, hrow, hv⟩
    have hj : j < width := by
      have hlt := (List.getElem?_eq_some_iff.mp hv).1
      rwa [hwidth row (List.mem_of_getElem? hrow)] at hlt
    exact ⟨_, getElem?_transposed hj, by simp [hrow, hv]⟩

section Table

variable {columns : List SeriesInfo} {keys : List Key} {table : List (List (Option Value))}

/-- **A table is without fault by rows if it is by columns.** -/
theorem Layout.fault?_transposed (hheight : table.length = keys.length)
    (hwidth : ∀ row ∈ table, row.length = columns.length) :
    (Layout.ofCells .rows columns keys table).fault? = none ↔
      (Layout.ofCells .columns columns keys (transposed columns.length table)).fault? = none := by
  rw [fault?_ofCells, fault?_ofCells]
  refine and_congr Iff.rfl (and_congr ?_ (and_congr ?_ ?_))
  · exact iff_of_true hheight (length_transposed _ _)
  · exact iff_of_true hwidth (length_of_mem_transposed hheight)
  · -- The series of a cell is that of its place by rows, and that of its line by columns.
    constructor
    · intro h line column hcolumn place v hv t ht
      obtain ⟨row, hrow, hv'⟩ := (cell_transposed hwidth).mp ⟨column, hcolumn, hv⟩
      exact h place row hrow line v hv' t ht
    · intro h line row hrow place v hv t ht
      obtain ⟨column, hcolumn, hv'⟩ := (cell_transposed hwidth).mpr ⟨row, hrow, hv⟩
      exact h place column hcolumn line v hv' t ht

namespace DataView

theorem ofLayout_eq_ok_iff {l : Layout} {view : DataView} :
    ofLayout l = .ok view ↔ view.toLayout = l := by
  constructor
  · intro h
    unfold ofLayout at h
    split at h
    · cases h
      rfl
    · cases h
  · rintro rfl
    unfold ofLayout
    split
    · rfl
    · next fault hfault =>
      rw [view.consistent] at hfault
      cases hfault

/-- The view of a rectangular table by rows is that of the layout of its cells. -/
theorem ofRows_eq (hheight : table.length = keys.length)
    (hwidth : ∀ row ∈ table, row.length = columns.length) :
    ofRows columns (keys.zip table) = ofLayout (.ofCells .rows columns keys table) := by
  have hkeys : (keys.zip table).map (·.1) = keys := List.map_fst_zip hheight.symm.le
  have hlines : (keys.zip table).map (·.2) = table := List.map_snd_zip hheight.le
  have hmasks : (keys.zip table).map (fun keyed => maskOf keyed.2) = table.map maskOf := by
    conv_rhs => rw [← hlines, List.map_map]
    rfl
  have hvalues : (keys.zip table).map (fun keyed => shown keyed.2) = table.map shown := by
    conv_rhs => rw [← hlines, List.map_map]
    rfl
  rw [Layout.ofCells, ← hmasks, ← hvalues, ofRows]
  split
  · next key cells hfound =>
    have hrow := hwidth cells (List.of_mem_zip (List.mem_of_find?_eq_some hfound)).2
    have hother := List.find?_some hfound
    simp [hrow] at hother
  · rw [hkeys]

/-- The view of a rectangular table by columns is that of the layout of its cells. -/
theorem ofColumns_eq {cells : List (List (Option Value))}
    (hheight : ∀ column ∈ cells, column.length = keys.length) :
    ofColumns columns keys cells = ofLayout (.ofCells .columns columns keys cells) := by
  rw [ofColumns]
  split
  · next column i hfound =>
    have hmem := List.mem_zipIdx_iff_getElem?.mp (List.mem_of_find?_eq_some hfound)
    have hcolumn := hheight column (List.mem_of_getElem? hmem)
    have hother := List.find?_some hfound
    simp [hcolumn] at hother
  · rfl

/-- The lines of a view of cells are the cells. -/
theorem lines_of_ofCells {orientation : Orientation} {cells : List (List (Option Value))}
    {view : DataView} (h : view.toLayout = .ofCells orientation columns keys cells) :
    view.lines = cells := by
  simp [lines, h, Layout.ofCells, expand_shown]

/-- The cells of a series are those at its place in the lines by keys. -/
theorem column_of_rows {view : DataView} (h : view.toLayout = .ofCells .rows columns keys table)
    (i : Nat) : view.column i = table.map fun row => row[i]?.join := by
  rw [column, lines_of_ofCells h, h]
  rfl

theorem column_of_columns {view : DataView}
    (h : view.toLayout = .ofCells .columns columns keys (transposed columns.length table)) {i : Nat}
    (hi : i < columns.length) : view.column i = table.map fun row => row[i]?.join := by
  rw [column, lines_of_ofCells h, h]
  show (transposed columns.length table)[i]?.getD [] = _
  rw [getElem?_transposed hi, Option.getD_some]

/-- **By rows and by columns a table has the same records.** -/
theorem records_transposed {byRows byColumns : DataView}
    (hrows : byRows.toLayout = .ofCells .rows columns keys table)
    (hcolumns : byColumns.toLayout =
      .ofCells .columns columns keys (transposed columns.length table)) :
    byRows.records = byColumns.records := by
  rw [records, records, hrows, hcolumns]
  refine List.map_congr_left fun indexed hindexed => ?_
  obtain ⟨series, i⟩ := indexed
  have hi : i < columns.length :=
    (List.getElem?_eq_some_iff.mp (List.mem_zipIdx_iff_getElem?.mp hindexed)).1
  simp only [column_of_rows hrows, column_of_columns hcolumns hi]
  rfl

/-- **The walk by rows and the walk by columns hand out the same records.** -/
theorem encode_transposed {byRows byColumns : DataView}
    (hrows : byRows.toLayout = .ofCells .rows columns keys table)
    (hcolumns : byColumns.toLayout =
      .ofCells .columns columns keys (transposed columns.length table)) :
    byRows.encode = byColumns.encode := by
  rw [encode_eq_records, encode_eq_records, records_transposed hrows hcolumns]

end DataView

/-- **A table is one and the same by rows and by columns**: the two views are accepted
alike, and where they are, inserting the one leads to the same result and leaves the
same state as inserting the other, for any engine over any store. -/
theorem Engine.outcome_insert_transposed (hheight : table.length = keys.length)
    (hwidth : ∀ row ∈ table, row.length = columns.length) :
    ((∃ view, DataView.ofRows columns (keys.zip table) = .ok view) ↔
      ∃ view, DataView.ofColumns columns keys (transposed columns.length table) = .ok view) ∧
    ∀ byRows byColumns, DataView.ofRows columns (keys.zip table) = .ok byRows →
      DataView.ofColumns columns keys (transposed columns.length table) = .ok byColumns →
        ∀ {σ : Type} (e : Engine σ) (unit : String) (s : EngineState σ),
          outcome (e.insert byRows unit) s = outcome (e.insert byColumns unit) s := by
  simp only [DataView.ofRows_eq hheight hwidth,
    DataView.ofColumns_eq (length_of_mem_transposed hheight),
    DataView.ofLayout_eq_ok_iff]
  constructor
  · have hfault := Layout.fault?_transposed hheight hwidth
    constructor
    · rintro ⟨view, hview⟩
      exact ⟨⟨_, hfault.mp (hview ▸ view.consistent)⟩, rfl⟩
    · rintro ⟨view, hview⟩
      exact ⟨⟨_, hfault.mpr (hview ▸ view.consistent)⟩, rfl⟩
  · intro byRows byColumns hrows hcols σ e unit s
    have hseries : byRows.columns = byColumns.columns := by rw [hrows, hcols]; rfl
    rw [insert, insert, DataView.encode_transposed hrows hcols, hseries]

end Table

/-- A table of two series and two keys, with a cell of each series. -/
def sparseTable : List SeriesInfo × List Key × List (List (Option Value)) :=
  ([⟨"a", .long, .empty⟩, ⟨"b.c", .boolean, .empty⟩], [1, 5],
    [[some (.long 3), none], [none, some (.boolean true)]])

theorem Engine.outcome_insert_sparseTable :
    let (columns, keys, table) := sparseTable
    let e : Engine DirectoryStore := ⟨⟨some ⟨"/d"⟩, none⟩, false, DirectoryStore.store 4⟩
    let s : EngineState DirectoryStore := { store := { disk := Disk.empty.put ["d"] .dir } }
    table.length = keys.length ∧ (∀ row ∈ table, row.length = columns.length) ∧
      ∃ byRows byColumns, DataView.ofRows columns (keys.zip table) = .ok byRows ∧
        DataView.ofColumns columns keys (transposed columns.length table) = .ok byColumns ∧
          outcome (e.insert byRows "u") s = outcome (e.insert byColumns "u") s := by
  have hheight : sparseTable.2.2.length = sparseTable.2.1.length := rfl
  have hwidth : ∀ row ∈ sparseTable.2.2, row.length = sparseTable.1.length := by decide
  obtain ⟨halike, hsame⟩ := outcome_insert_transposed hheight hwidth
  have hrows : ∃ view, DataView.ofRows sparseTable.1 (sparseTable.2.1.zip sparseTable.2.2) =
      .ok view :=
    ⟨⟨_, by decide⟩,
      (DataView.ofRows_eq hheight hwidth).trans (DataView.ofLayout_eq_ok_iff.mpr rfl)⟩
  obtain ⟨byRows, hbyRows⟩ := hrows
  obtain ⟨byColumns, hbyColumns⟩ := halike.mp ⟨byRows, hbyRows⟩
  exact ⟨hheight, hwidth, byRows, byColumns, hbyRows, hbyColumns,
    hsame byRows byColumns hbyRows hbyColumns _ _ _⟩

end KeyedSeries

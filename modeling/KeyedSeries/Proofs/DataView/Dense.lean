import KeyedSeries.Proofs.DataView.FirstColumns

/-!
# Masks lose nothing

A line of a layout can be read place by place, without going through the line: a place
that its mask does not show is absent, and one that it shows has the value at its
**rank**, the number of places that are shown before it (`KeyedSeries.rank`). That is
what the expansion of the line has there (`KeyedSeries.getElem?_expand`).

So a view has a dense table, cell by cell of its keys and series, by rows or by columns
(`KeyedSeries.Layout.denseRows`, `KeyedSeries.Layout.denseColumns`). **The two forms say
the same** (`KeyedSeries.DataView.dense_roundTrip`): the dense table of the view of a
table is the table, the view of the dense table of a view is the view, and what a mask
shows is there, of the type of its series and under a key that can be stored.
-/

namespace KeyedSeries

/-! ### Ranks -/

/-- The rank of a place: how many places a mask shows before it. -/
def rank (mask : List Bool) (place : Nat) : Nat := (mask.take place).count true

@[simp] theorem rank_true_cons (mask : List Bool) (place : Nat) :
    rank (true :: mask) (place + 1) = rank mask place + 1 := by
  simp [rank]

@[simp] theorem rank_false_cons (mask : List Bool) (place : Nat) :
    rank (false :: mask) (place + 1) = rank mask place := by
  simp [rank]

/-- The cell of a line at a place that its mask shows is the value at the rank of the place. -/
def cellByRank? (mask : List Bool) (values : List Value) (place : Nat) : Option Value :=
  if mask[place]? = some true then values[rank mask place]? else none

/-- **The cells of a line go by rank.** -/
theorem getElem?_expand (mask : List Bool) (values : List Value) (place : Nat) :
    (expand mask values)[place]?.join = cellByRank? mask values place := by
  induction mask generalizing values place with
  | nil => rfl
  | cons present mask ih =>
    cases place with
    | zero => cases present <;> cases values <;> rfl
    | succ place =>
      cases present with
      | true =>
        cases values with
        | nil => simpa [expand, cellByRank?] using ih [] place
        | cons v values => simpa [expand, cellByRank?] using ih values place
      | false => simpa [expand, cellByRank?] using ih values place

/-! ### Dense tables -/

/-- A table by its cells. -/
def tabulate (height width : Nat) (cell : Nat → Nat → Option Value) : List (List (Option Value)) :=
  (List.range height).map fun i => (List.range width).map (cell i)

/-- A rectangular table is made of its cells. -/
theorem tabulate_cells {table : List (List (Option Value))} {height width : Nat}
    (hheight : table.length = height) (hwidth : ∀ row ∈ table, row.length = width) :
    tabulate height width (fun i j => table[i]?.bind fun row => row[j]?.join) = table := by
  refine List.ext_getElem (by simp [tabulate, hheight]) fun i _ hi => ?_
  have hrow : table[i].length = width := hwidth _ (List.getElem_mem hi)
  refine List.ext_getElem (by simp [tabulate, hrow]) fun j _ hj => ?_
  simp [tabulate, hi, hj]

namespace Layout

/-- Whether the mask of a line shows a place. -/
def LineShows (l : Layout) (line place : Nat) : Prop :=
  l.masks[line]?.bind (·[place]?) = some true

/-- The cell at a place of a line, by its rank. -/
def lineCell? (l : Layout) (line place : Nat) : Option Value :=
  match l.masks[line]?, l.values[line]? with
  | some mask, some values => cellByRank? mask values place
  | _, _ => none

/-- Whether the cell of a key and a series is shown. -/
def Shows (l : Layout) (key series : Nat) : Prop :=
  match l.orientation with
  | .rows => l.LineShows key series
  | .columns => l.LineShows series key

/-- The cell of a key and a series. -/
def cell? (l : Layout) (key series : Nat) : Option Value :=
  match l.orientation with
  | .rows => l.lineCell? key series
  | .columns => l.lineCell? series key

/-- The dense table, line by line for the keys. -/
def denseRows (l : Layout) : List (List (Option Value)) :=
  tabulate l.keys.length l.columns.length l.cell?

/-- The dense table, line by line for the series. -/
def denseColumns (l : Layout) : List (List (Option Value)) :=
  tabulate l.columns.length l.keys.length fun series key => l.cell? key series

end Layout

namespace DataView

variable {view : DataView} {columns : List SeriesInfo} {keys : List Key}

/-- The lines of a view make a rectangle. -/
theorem length_lines (view : DataView) :
    view.lines.length = view.height ∧ ∀ row ∈ view.lines, row.length = view.width := by
  have hfault := view.consistent
  rw [toLayout_eq_ofCells, Layout.fault?_ofCells] at hfault
  exact ⟨hfault.2.1, hfault.2.2.1⟩

/-- The cells of a line are those by rank. -/
theorem lineCell?_eq (view : DataView) (line place : Nat) :
    view.lineCell? line place = view.lines[line]?.bind fun row => row[place]?.join := by
  rw [Layout.lineCell?, lines, List.getElem?_zipWith]
  cases view.masks[line]? with
  | none => rfl
  | some mask =>
    cases view.values[line]? with
    | none => rfl
    | some values => exact (getElem?_expand mask values place).symm

theorem tabulate_lineCell? (view : DataView) :
    tabulate view.height view.width view.lineCell? = view.lines := by
  obtain ⟨hheight, hwidth⟩ := view.length_lines
  have hcells : view.lineCell? = fun i j => view.lines[i]?.bind fun row => row[j]?.join :=
    funext fun line => funext fun place => view.lineCell?_eq line place
  rw [hcells, tabulate_cells hheight hwidth]

/-- **By rows the dense table is the lines.** -/
theorem denseRows_eq (h : view.orientation = .rows) : view.denseRows = view.lines := by
  have hlines := view.tabulate_lineCell?
  have hcell : view.cell? = view.lineCell? := by
    funext key series
    rw [Layout.cell?, h]
  simp only [Layout.height, Layout.width, h] at hlines
  rw [Layout.denseRows, hcell, hlines]

/-- **By columns, too**, the dense table is the lines. -/
theorem denseColumns_eq (h : view.orientation = .columns) : view.denseColumns = view.lines := by
  have hlines := view.tabulate_lineCell?
  have hcell : (fun series key => view.cell? key series) = view.lineCell? := by
    funext series key
    rw [Layout.cell?, h]
  simp only [Layout.height, Layout.width, h] at hlines
  rw [Layout.denseColumns, hcell, hlines]

/-! ### Tables that are accepted -/

/-- The view of a table by rows is that of its cells. -/
theorem ofRows_eq_ok {rows : List (Key × List (Option Value))}
    (h : ofRows columns rows = .ok view) :
    view.toLayout = .ofCells .rows columns (rows.map (·.1)) (rows.map (·.2)) := by
  rw [ofRows] at h
  split at h
  · cases h
  · rw [ofLayout_eq_ok_iff.mp h, Layout.ofCells, List.map_map, List.map_map]
    rfl

/-- So is the view of a table by columns. -/
theorem ofColumns_eq_ok {cells : List (List (Option Value))}
    (h : ofColumns columns keys cells = .ok view) :
    view.toLayout = .ofCells .columns columns keys cells := by
  rw [ofColumns] at h
  split at h
  · cases h
  · exact ofLayout_eq_ok_iff.mp h

/-- **The dense table of a view by rows** makes the view. -/
theorem ofRows_denseRows (h : view.orientation = .rows) :
    ofRows view.columns (view.keys.zip view.denseRows) = .ok view := by
  have hshape := view.length_lines
  simp only [Layout.height, Layout.width, h] at hshape
  rw [denseRows_eq h, ofRows_eq hshape.1 hshape.2, ofLayout_eq_ok_iff, ← h]
  exact view.toLayout_eq_ofCells

/-- **The dense table of a view by columns** makes the view. -/
theorem ofColumns_denseColumns (h : view.orientation = .columns) :
    ofColumns view.columns view.keys view.denseColumns = .ok view := by
  have hshape := view.length_lines
  simp only [Layout.height, Layout.width, h] at hshape
  rw [denseColumns_eq h, ofColumns_eq hshape.2, ofLayout_eq_ok_iff, ← h]
  exact view.toLayout_eq_ofCells

/-! ### Cells that are shown -/

/-- What the mask of a line shows is in the line, and of the type of its cell. -/
theorem lineCell?_of_lineShows {line place : Nat} (h : view.LineShows line place) :
    ∃ v, view.lineCell? line place = some v ∧ line < view.height ∧ place < view.width ∧
      ∀ t, view.expected? line place = some t → v.dataType = t := by
  have hlayout := view.toLayout_eq_ofCells
  have hmasks : view.masks = view.lines.map maskOf := congrArg Layout.masks hlayout
  have hfault := view.consistent
  rw [hlayout, Layout.fault?_ofCells] at hfault
  obtain ⟨-, hheight, hwidth, htypes⟩ := hfault
  rw [Layout.LineShows, hmasks, List.getElem?_map, Option.bind_map] at h
  obtain ⟨row, hrow, hplace⟩ := Option.bind_eq_some_iff.mp h
  obtain ⟨v, hv⟩ : ∃ v, row[place]? = some (some v) := by
    simpa [maskOf, Option.isSome_iff_exists] using hplace
  refine ⟨v, by rw [lineCell?_eq, hrow, Option.bind_some, hv]; rfl, ?_, ?_,
    fun t ht => htypes line row hrow place v hv t ht⟩
  · exact (List.getElem?_eq_some_iff.mp hrow).1.trans_eq hheight
  · exact (List.getElem?_eq_some_iff.mp hv).1.trans_eq (hwidth row (List.mem_of_getElem? hrow))

/-- **What is shown is there**, with the type of its series. -/
theorem cell?_of_shows {key series : Nat} (h : view.Shows key series) :
    ∃ v info, view.cell? key series = some v ∧ view.columns[series]? = some info ∧
      v.dataType = info.dataType := by
  rw [Layout.Shows] at h
  rw [Layout.cell?]
  -- By rows the series of a cell is its place in the line, by columns the line.
  cases horientation : view.orientation with
  | rows =>
    rw [horientation] at h
    obtain ⟨v, hv, -, hseries, htype⟩ := lineCell?_of_lineShows h
    simp only [Layout.width, Layout.expected?, horientation] at hseries htype
    have hinfo := List.getElem?_eq_getElem hseries
    exact ⟨v, _, hv, hinfo, htype _ (by rw [hinfo, Option.map_some])⟩
  | columns =>
    rw [horientation] at h
    obtain ⟨v, hv, hseries, -, htype⟩ := lineCell?_of_lineShows h
    simp only [Layout.height, Layout.expected?, horientation] at hseries htype
    have hinfo := List.getElem?_eq_getElem hseries
    exact ⟨v, _, hv, hinfo, htype _ (by rw [hinfo, Option.map_some])⟩

/-- The keys of a view can be stored. -/
theorem le_last_of_mem (view : DataView) {k : Key} (hk : k ∈ view.keys) : k ≤ Key.last := by
  have htop := Layout.lt_top_of_mem view.consistent hk
  rw [Int64.lt_iff_toInt_lt] at htop
  rw [Int64.le_iff_toInt_le]
  have hlast : Key.last.toInt + 1 = Key.top.toInt := by decide
  omega

/-! ### There and back -/

/-- **Views and dense tables are the same thing.** The view of a table has the table as its dense
table, under the same series and keys. A layout that is accepted is made again from its dense
table. In every view, what is shown is there and of the type of its series, and the keys go up and
can be stored. -/
theorem dense_roundTrip :
    (∀ columns rows view, ofRows columns rows = .ok view →
      view.orientation = .rows ∧ view.columns = columns ∧ view.keys = rows.map (·.1) ∧
        view.denseRows = rows.map (·.2)) ∧
    (∀ columns keys cells view, ofColumns columns keys cells = .ok view →
      view.orientation = .columns ∧ view.columns = columns ∧ view.keys = keys ∧
        view.denseColumns = cells) ∧
    (∀ l view, ofLayout l = .ok view → view.toLayout = l ∧
      (l.orientation = .rows → ofRows l.columns (l.keys.zip l.denseRows) = .ok view) ∧
      (l.orientation = .columns → ofColumns l.columns l.keys l.denseColumns = .ok view)) ∧
    ∀ view : DataView,
      (∀ key series, view.Shows key series → ∃ v info, view.cell? key series = some v ∧
        view.columns[series]? = some info ∧ v.dataType = info.dataType) ∧
      view.keys.Pairwise (fun a b => a < b) ∧ ∀ k ∈ view.keys, k ≤ Key.last := by
  refine ⟨fun columns rows view h => ?_, fun columns keys cells view h => ?_,
    fun l view h => ?_, fun view => ⟨fun key series h => cell?_of_shows h, ?_, ?_⟩⟩
  · have hlayout := ofRows_eq_ok h
    have horientation : view.orientation = .rows := congrArg Layout.orientation hlayout
    exact ⟨horientation, congrArg Layout.columns hlayout, congrArg Layout.keys hlayout,
      (denseRows_eq horientation).trans (lines_of_ofCells hlayout)⟩
  · have hlayout := ofColumns_eq_ok h
    have horientation : view.orientation = .columns := congrArg Layout.orientation hlayout
    exact ⟨horientation, congrArg Layout.columns hlayout, congrArg Layout.keys hlayout,
      (denseColumns_eq horientation).trans (lines_of_ofCells hlayout)⟩
  · obtain rfl := ofLayout_eq_ok_iff.mp h
    exact ⟨rfl, ofRows_denseRows, ofColumns_denseColumns⟩
  · exact Layout.pairwise_of_disorder? (Layout.faults_of_none view.consistent).1
  · exact fun k hk => view.le_last_of_mem hk

/-- Three keys of two series; the last key has no cell. -/
def sparseLayout : Layout where
  orientation := .rows
  columns := [⟨"a", .long, .empty⟩, ⟨"b.c", .boolean, .empty⟩]
  keys := [1, 5, 7]
  masks := [[false, true], [true, true], [false, false]]
  values := [[.boolean true], [.long 4, .boolean false], []]

theorem dense_roundTrip_sparseLayout :
    let table : List (List (Option Value)) :=
      [[none, some (.boolean true)], [some (.long 4), some (.boolean false)], [none, none]]
    ∃ byRows byColumns : DataView, ofLayout sparseLayout = .ok byRows ∧ byRows.denseRows = table ∧
      ofRows sparseLayout.columns ([1, 5, 7].zip table) = .ok byRows ∧
        ofColumns sparseLayout.columns [1, 5, 7] (transposed 2 table) = .ok byColumns ∧
          byColumns.denseColumns = transposed 2 table := by
  intro table
  obtain ⟨-, hcolumns, hlayout, -⟩ := dense_roundTrip
  let byRows : DataView := ⟨sparseLayout, by decide⟩
  let byColumns : DataView :=
    ⟨.ofCells .columns sparseLayout.columns [1, 5, 7] (transposed 2 table), by decide⟩
  have haccepted : ofLayout sparseLayout = .ok byRows := ofLayout_eq_ok_iff.mpr rfl
  have htransposed :
      ofColumns sparseLayout.columns [1, 5, 7] (transposed 2 table) = .ok byColumns :=
    (ofColumns_eq (by decide)).trans (ofLayout_eq_ok_iff.mpr rfl)
  exact ⟨byRows, byColumns, haccepted, rfl, (hlayout _ _ haccepted).2.1 rfl, htransposed,
    (hcolumns _ _ _ _ htransposed).2.2.2⟩

end DataView

end KeyedSeries

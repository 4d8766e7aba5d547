import KeyedSeries.Proofs.Store.SeriesFiles

/-!
# The cells of a view

A data view has no fault, and so its cells are of the types of their columns and
its keys can be stored (`KeyedSeries.DataView.storableCells`). Its records are its
present cells (`KeyedSeries.DataView.records_eq`).
-/

namespace KeyedSeries

/-! ### Layouts without fault -/

namespace Layout

variable {l : Layout}

/-- The last key is the greatest one, if they are in order. -/
theorem le_getLast_of_disorder? {keys : List Key} (h : disorder? keys = none) {k last : Key}
    (hk : k ∈ keys) (hlast : keys.getLast? = some last) : k ≤ last := by
  induction keys generalizing k with
  | nil => cases hk
  | cons a rest ih =>
    cases rest with
    | nil =>
      cases hlast
      rw [List.mem_singleton.mp hk]
      exact Int64.le_refl _
    | cons b rest =>
      rw [disorder?] at h
      split at h
      · cases h
      · next hab =>
        have hlast : (b :: rest).getLast? = some last := by rwa [List.getLast?_cons_cons] at hlast
        rcases List.mem_cons.mp hk with rfl | hk
        · have hb := ih h List.mem_cons_self hlast
          grind
        · exact ih h hk hlast

/-- The keys go by ascending order if none of them is out of it. -/
theorem pairwise_of_disorder? {keys : List Key} (h : disorder? keys = none) :
    keys.Pairwise fun a b => a < b := by
  induction keys with
  | nil => exact .nil
  | cons a rest ih =>
    cases rest with
    | nil => exact List.pairwise_singleton _ a
    | cons b rest =>
      rw [disorder?] at h
      split at h
      · cases h
      · next hab =>
        have hrest := ih h
        refine .cons (fun c hc => ?_) hrest
        rcases List.mem_cons.mp hc with rfl | hc
        · exact Int64.not_le.mp hab
        · exact Int64.lt_trans (Int64.not_le.mp hab) (List.rel_of_pairwise_cons hrest hc)

/-- What a layout without fault is free of. -/
theorem faults_of_none (h : l.fault? = none) :
    disorder? l.keys = none ∧ l.keys.getLast?.filter (Key.last < ·) = none ∧
      l.linesFault? = none := by
  rw [fault?] at h
  split at h
  · cases h
  · next horder =>
    split at h
    · cases h
    · next hlast =>
      split at h
      · cases h
      · split at h
        · cases h
        · exact ⟨horder, hlast, h⟩

/-- The keys of a layout without fault can be stored. -/
theorem lt_top_of_mem (h : l.fault? = none) {k : Key} (hk : k ∈ l.keys) : k < Key.top := by
  obtain ⟨horder, hlast, -⟩ := faults_of_none h
  cases hgreatest : l.keys.getLast? with
  | none =>
    rw [List.getLast?_eq_none_iff.mp hgreatest] at hk
    cases hk
  | some last =>
    have hle := le_getLast_of_disorder? horder hk hgreatest
    have hbelow : ¬Key.last < last := by simpa [hgreatest] using hlast
    have htop : Key.last < Key.top := by decide
    grind

/-- The values of a line are of their cells' types. -/
theorem dataType_of_mem (h : l.fault? = none) {line : Nat} {mask : List Bool} {values : List Value}
    (hmask : l.masks[line]? = some mask) (hvalues : l.values[line]? = some values) {i : Nat}
    {v : Value} {t : DataType} (hv : (i, v) ∈ (places mask).zip values)
    (ht : l.expected? line i = some t) : v.dataType = t := by
  obtain ⟨-, -, hlines⟩ := faults_of_none h
  have hline : ((mask, values), line) ∈ (l.masks.zip l.values).zipIdx := by
    rw [List.mem_zipIdx_iff_getElem?, List.getElem?_zip_eq_some]
    exact ⟨hmask, hvalues⟩
  have hnone : l.lineFault? line mask values = none :=
    List.findSome?_eq_none_iff.mp hlines _ hline
  rw [lineFault?] at hnone
  split at hnone
  · cases hnone
  · split at hnone
    · cases hnone
    · have hcell := List.findSome?_eq_none_iff.mp hnone _ hv
      simp only [ht] at hcell
      by_contra hne
      rw [if_neg hne] at hcell
      cases hcell

end Layout

/-! ### Views -/

namespace DataView

variable {view : DataView}

/-- The columns of a view with their cells. -/
def cellColumns (view : DataView) : List (SeriesInfo × List (Key × Value)) :=
  view.columns.zipIdx.map fun (series, i) => (series, view.cells i)

theorem mem_cellColumns {column : SeriesInfo × List (Key × Value)} (h : column ∈ view.cellColumns) :
    ∃ i, view.columns[i]? = some column.1 ∧ column.2 = view.cells i := by
  obtain ⟨⟨series, i⟩, hmem, rfl⟩ := List.mem_map.mp h
  exact ⟨i, List.mem_zipIdx_iff_getElem?.mp hmem, rfl⟩

/-- The series is a column of the view. -/
theorem mem_columns {column : SeriesInfo × List (Key × Value)} (h : column ∈ view.cellColumns) :
    column.1 ∈ view.columns := by
  obtain ⟨i, hseries, -⟩ := mem_cellColumns h
  exact List.mem_of_getElem? hseries

theorem map_cellColumns {α : Type} (view : DataView) (f : SeriesInfo → α) :
    (view.cellColumns.map fun column => f column.1) = view.columns.map f := by
  conv_rhs => rw [← List.zipIdx_map_fst 0 view.columns, List.map_map]
  rw [cellColumns, List.map_map]
  rfl

theorem records_eq (view : DataView) :
    view.records = view.cellColumns.map fun column => recordsOf column.1.dataType column.2 := by
  rw [cellColumns, List.map_map]
  refine List.map_congr_left fun column _ => ?_
  obtain ⟨series, i⟩ := column
  simp only [Function.comp_apply, recordsOf, cells, List.map_filterMap]
  refine List.filterMap_congr fun keyed _ => ?_
  obtain ⟨key, cell⟩ := keyed
  cases cell <;> rfl

/-- The cells of a column go by ascending keys. -/
theorem pairwise_cells (view : DataView) (i : Nat) :
    (view.cells i).Pairwise fun a b => a.1 < b.1 := by
  have hzip : ∀ {keys : List Key} (cells : List (Option Value)), keys.Pairwise (fun a b => a < b) →
      (keys.zip cells).Pairwise fun a b => a.1 < b.1 := by
    intro keys cells h
    induction h generalizing cells with
    | nil => exact .nil
    | cons hkey _ ih =>
      cases cells with
      | nil => exact .nil
      | cons c rest => exact .cons (fun e he => hkey _ (List.of_mem_zip he).1) (ih rest)
  have hkeys := Layout.pairwise_of_disorder? (Layout.faults_of_none view.consistent).1
  refine List.pairwise_filterMap.mpr ((hzip (view.column i) hkeys).imp ?_)
  intro a b hab x hx y hy
  obtain ⟨v, -, rfl⟩ := Option.map_eq_some_iff.mp hx
  obtain ⟨w, -, rfl⟩ := Option.map_eq_some_iff.mp hy
  exact hab

/-- A present cell is a value of a line, at its place there. -/
theorem line_of_mem_cells {i : Nat} {cell : Key × Value} (h : cell ∈ view.cells i) :
    cell.1 ∈ view.keys ∧ ∃ line place mask values, view.masks[line]? = some mask ∧
      view.values[line]? = some values ∧ (place, cell.2) ∈ (places mask).zip values ∧
        view.expected? line place = view.columns[i]?.map (·.dataType) := by
  obtain ⟨⟨key, c⟩, hzip, hcell⟩ := List.mem_filterMap.mp h
  obtain ⟨v, rfl, rfl⟩ := Option.map_eq_some_iff.mp hcell
  obtain ⟨hkey, hcolumn⟩ := List.of_mem_zip hzip
  refine ⟨hkey, ?_⟩
  have hline : ∀ {n : Nat} {cells : List (Option Value)}, view.lines[n]? = some cells →
      ∃ mask values, view.masks[n]? = some mask ∧ view.values[n]? = some values ∧
        cells = expand mask values := by
    intro n cells hn
    obtain ⟨mask, values, hmask, hvalues, heq⟩ := List.getElem?_zipWith_eq_some.mp hn
    exact ⟨mask, values, hmask, hvalues, heq.symm⟩
  -- By rows a cell stands in the line of its key, by columns in that of its series.
  rw [column] at hcolumn
  split at hcolumn
  · next horientation =>
    obtain ⟨cells, hmem, hjoin⟩ := List.mem_map.mp hcolumn
    obtain ⟨n, hn⟩ := List.mem_iff_getElem?.mp hmem
    obtain ⟨mask, values, hmask, hvalues, rfl⟩ := hline hn
    refine ⟨n, i, mask, values, hmask, hvalues, mem_zip_places.mpr ?_, ?_⟩
    · rwa [Option.join_eq_some_iff] at hjoin
    · rw [Layout.expected?, horientation]
  · next horientation =>
    cases hn : view.lines[i]? with
    | none =>
      rw [hn] at hcolumn
      cases hcolumn
    | some cells =>
      obtain ⟨mask, values, hmask, hvalues, rfl⟩ := hline hn
      rw [hn] at hcolumn
      obtain ⟨place, hplace⟩ := List.mem_iff_getElem?.mp hcolumn
      refine ⟨i, place, mask, values, hmask, hvalues, mem_zip_places.mpr hplace, ?_⟩
      rw [Layout.expected?, horientation]

/-- The cells of a column are of its type. -/
theorem dataType_of_mem_cellColumns {column : SeriesInfo × List (Key × Value)}
    (h : column ∈ view.cellColumns) {cell : Key × Value} (hcell : cell ∈ column.2) :
    cell.2.dataType = column.1.dataType := by
  obtain ⟨i, hcolumn, hcells⟩ := mem_cellColumns h
  rw [hcells] at hcell
  obtain ⟨-, line, place, mask, values, hmask, hvalues, hmem, hexpected⟩ := line_of_mem_cells hcell
  rw [hcolumn] at hexpected
  exact Layout.dataType_of_mem view.consistent hmask hvalues hmem hexpected

/-- **The cells of a column can be stored** as values of the column's type. -/
theorem storableCells (hexact : ∀ values ∈ view.values, ∀ v ∈ values, v.IsExact)
    {column : SeriesInfo × List (Key × Value)} (h : column ∈ view.cellColumns) :
    StorableCells column.1.dataType column.2 := by
  obtain ⟨i, -, hcells⟩ := mem_cellColumns h
  refine ⟨fun cell hcell => dataType_of_mem_cellColumns h hcell, fun cell hcell => ?_,
    fun cell hcell => ?_⟩
  · rw [hcells] at hcell
    obtain ⟨-, line, place, mask, values, -, hvalues, hmem, -⟩ := line_of_mem_cells hcell
    exact hexact values (List.mem_of_getElem? hvalues) _ (List.of_mem_zip hmem).2
  · rw [hcells] at hcell
    exact Layout.lt_top_of_mem view.consistent (line_of_mem_cells hcell).1

end DataView

end KeyedSeries

import KeyedSeries.Proofs.DataView.Transposed

/-!
# The first columns of a view

A view without fault is made of its lines (`KeyedSeries.DataView.toLayout_eq_ofCells`), and
what is left of it without some columns at its end is a view again
(`KeyedSeries.DataView.firstColumns`), by rows as by columns. **The columns that are left
have the cells that they had** (`KeyedSeries.DataView.cellColumns_firstColumns`).
-/

namespace KeyedSeries

/-! ### Lines that fit their masks -/

/-- The mask of a line is that of its cells, if it shows as many places as there are values. -/
theorem maskOf_expand {mask : List Bool} {values : List Value}
    (h : mask.count true = values.length) : maskOf (expand mask values) = mask := by
  induction mask generalizing values with
  | nil => rfl
  | cons present mask ih =>
    cases present with
    | true =>
      cases values with
      | nil => simp at h
      | cons v values =>
        have hrest : mask.count true = values.length := by simpa using h
        simpa [expand, maskOf] using ih hrest
    | false =>
      have hrest : mask.count true = values.length := by simpa using h
      simpa [expand, maskOf] using ih hrest

/-- So are its values. -/
theorem shown_expand {mask : List Bool} {values : List Value}
    (h : mask.count true = values.length) : shown (expand mask values) = values := by
  induction mask generalizing values with
  | nil =>
    have hnil : values = [] := List.eq_nil_of_length_eq_zero (by simpa using h.symm)
    rw [hnil]
    rfl
  | cons present mask ih =>
    cases present with
    | true =>
      cases values with
      | nil => simp at h
      | cons v values =>
        have hrest : mask.count true = values.length := by simpa using h
        simpa [expand, shown] using ih hrest
    | false =>
      have hrest : mask.count true = values.length := by simpa using h
      simpa [expand, shown] using ih hrest

namespace DataView

variable {view : DataView} {k : Nat}

/-- Every mask shows as many places as there are values. -/
theorem forall₂_count (view : DataView) :
    List.Forall₂ (fun mask values => mask.count true = values.length) view.masks view.values := by
  obtain ⟨-, ⟨hmasks, hvalues⟩, hlines⟩ := Layout.fault?_eq_none_iff.mp view.consistent
  refine List.forall₂_iff_zip.mpr ⟨hmasks.trans hvalues.symm, fun {mask values} hmem => ?_⟩
  obtain ⟨i, hline⟩ := List.mem_iff_getElem?.mp hmem
  have hindexed : ((mask, values), i) ∈ (view.masks.zip view.values).zipIdx :=
    List.mem_zipIdx_iff_getElem?.mpr hline
  have hnone : view.lineFault? i mask values = none :=
    List.findSome?_eq_none_iff.mp hlines _ hindexed
  rw [Layout.lineFault?] at hnone
  split at hnone
  · cases hnone
  · split at hnone
    · cases hnone
    · next heq => exact not_not.mp heq

/-- So the masks are those of the lines that they make with the values, and the values are, too. -/
theorem maps_of_forall₂_count {masks : List (List Bool)} {values : List (List Value)}
    (h : List.Forall₂ (fun mask values => mask.count true = values.length) masks values) :
    (List.zipWith expand masks values).map maskOf = masks ∧
      (List.zipWith expand masks values).map shown = values := by
  induction h with
  | nil => exact ⟨rfl, rfl⟩
  | cons hcount _ ih =>
    simp only [List.zipWith_cons_cons, List.map_cons, maskOf_expand hcount, shown_expand hcount,
      ih, and_self]

/-- **A view is made of its lines.** -/
theorem toLayout_eq_ofCells (view : DataView) :
    view.toLayout = .ofCells view.orientation view.columns view.keys view.lines := by
  obtain ⟨hmasks, hvalues⟩ := maps_of_forall₂_count view.forall₂_count
  rw [Layout.ofCells, lines, hmasks, hvalues]

/-- The lines without the cells of later columns: by rows a shorter line for every key, by
columns fewer lines. -/
def firstLines (view : DataView) (k : Nat) : List (List (Option Value)) :=
  match view.orientation with
  | .rows => view.lines.map (·.take k)
  | .columns => view.lines.take k

/-- The layout of the first columns. -/
def firstLayout (view : DataView) (k : Nat) : Layout :=
  .ofCells view.orientation (view.columns.take k) view.keys (view.firstLines k)

/-- Without a path at the end no path stands twice. -/
theorem repeated?_take {seen paths : List String} (h : Layout.repeated? seen paths = none)
    (k : Nat) :
    Layout.repeated? seen (paths.take k) = none := by
  induction paths generalizing seen k with
  | nil => rw [List.take_nil]; rfl
  | cons path rest ih =>
    cases k with
    | zero => rfl
    | succ k =>
      rw [Layout.repeated?] at h
      rw [List.take_succ_cons, Layout.repeated?]
      split at h
      · cases h
      · next hnew =>
        rw [if_neg hnew]
        exact ih h k

/-- **The first columns have no fault** if all columns have none. -/
theorem fault?_firstLayout (view : DataView) (k : Nat) : (view.firstLayout k).fault? = none := by
  have hall := view.consistent
  rw [toLayout_eq_ofCells, Layout.fault?_ofCells] at hall
  obtain ⟨⟨horder, hlast, hpaths⟩, hheight, hwidth, htypes⟩ := hall
  rw [firstLayout, firstLines, Layout.fault?_ofCells]
  refine ⟨⟨horder, hlast, ?_⟩, ?_⟩
  · rw [List.map_take]
    exact repeated?_take hpaths k
  · cases horientation : view.orientation with
    | rows =>
      simp only [horientation, Layout.height, Layout.width, Layout.expected?, Layout.ofCells]
        at hheight hwidth htypes ⊢
      refine ⟨by simpa using hheight, ?_, ?_⟩
      · intro row hrow
        obtain ⟨line, hline, rfl⟩ := List.mem_map.mp hrow
        rw [List.length_take, List.length_take, hwidth line hline]
      · intro line row hrow place v hv t ht
        rw [List.getElem?_map, Option.map_eq_some_iff] at hrow
        obtain ⟨whole, hwhole, rfl⟩ := hrow
        rw [List.getElem?_take] at hv ht
        split at hv
        · next hlt =>
          rw [if_pos hlt] at ht
          exact htypes line whole hwhole place v hv t ht
        · cases hv
    | columns =>
      simp only [horientation, Layout.height, Layout.width, Layout.expected?, Layout.ofCells]
        at hheight hwidth htypes ⊢
      refine ⟨by rw [List.length_take, List.length_take, hheight],
        fun row hrow => hwidth row (List.mem_of_mem_take hrow), ?_⟩
      intro line row hrow place v hv t ht
      rw [List.getElem?_take] at hrow ht
      split at hrow
      · next hlt =>
        rw [if_pos hlt] at ht
        exact htypes line row hrow place v hv t ht
      · cases hrow

/-- **The first columns of a view**, with their cells. -/
def firstColumns (view : DataView) (k : Nat) : DataView :=
  ⟨view.firstLayout k, view.fault?_firstLayout k⟩

@[simp] theorem columns_firstColumns (view : DataView) (k : Nat) :
    (view.firstColumns k).columns = view.columns.take k := rfl

theorem column_firstColumns {i : Nat} (h : i < k) :
    (view.firstColumns k).column i = view.column i := by
  have hlines : (view.firstColumns k).lines = view.firstLines k := lines_of_ofCells rfl
  have horientation : (view.firstColumns k).orientation = view.orientation := rfl
  rw [column, column, hlines, horientation, firstLines]
  cases view.orientation with
  | rows => simp [h]
  | columns => simp [h]

/-- **The columns that are left** have the cells that they had. -/
theorem cellColumns_firstColumns (view : DataView) (k : Nat) :
    (view.firstColumns k).cellColumns = view.cellColumns.take k := by
  have hcells : ∀ i, i < k → (view.firstColumns k).cells i = view.cells i := by
    intro i hi
    have hkeys : (view.firstColumns k).keys = view.keys := rfl
    rw [cells, cells, column_firstColumns hi, hkeys]
  refine List.ext_getElem? fun i => ?_
  rw [List.getElem?_take, cellColumns, cellColumns, columns_firstColumns]
  by_cases hi : i < k
  · cases hseries : view.columns[i]? with
    | none => simp [hi, hseries]
    | some series => simp [hi, hseries, hcells i hi]
  · simp [hi]

end DataView

end KeyedSeries

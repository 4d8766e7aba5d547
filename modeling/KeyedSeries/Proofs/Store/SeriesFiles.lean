import KeyedSeries.Proofs.KeyRange
import KeyedSeries.Proofs.Store.Mirror
import KeyedSeries.Proofs.Store.Reading

/-!
# The files of series

The store works on one file at a time. On a disk that mirrors a catalog, each of
these steps is a step on one series of the catalog: cells are added as
`KeyedSeries.Catalog.upsert` adds them (`KeyedSeries.Mirrors.writeSeries_eq`), and a
series is removed or trimmed where its tags are accepted
(`KeyedSeries.Mirrors.removeOne_eq`, `KeyedSeries.Mirrors.trimOne_eq`). **No step
fails but for a cell of the wrong type, and then it changes nothing.**
-/

namespace KeyedSeries

open Disk FilePath DirectoryStore

/-! ### Adding cells -/

/-- Records with cells added. -/
def addCells (records : OrderedMap Key Value) (cells : List (Key × Value)) : OrderedMap Key Value :=
  cells.foldl (fun records cell => records.insert cell.1 cell.2) records

/-- A cell is found under its key if the keys are in order. -/
theorem get?_addCells_of_mem {records : OrderedMap Key Value} {cells : List (Key × Value)}
    (h : cells.Pairwise fun a b => a.1 < b.1) {cell : Key × Value} (hcell : cell ∈ cells) :
    (addCells records cells).get? cell.1 = some cell.2 := by
  induction cells using List.reverseRecOn with
  | nil => cases hcell
  | append_singleton cells last ih =>
    obtain ⟨hcells, -, hlast⟩ := List.pairwise_append.mp h
    rw [addCells, List.foldl_append]
    change OrderedMap.get? ((addCells records cells).insert last.1 last.2) cell.1 = _
    rw [OrderedMap.get?_insert]
    rcases List.mem_append.mp hcell with hmem | hmem
    · rw [if_neg (Int64.ne_of_lt (hlast cell hmem last List.mem_cons_self)), ih hcells hmem]
    · rw [List.mem_singleton.mp hmem, if_pos rfl]

/-- The cells of a series as the store takes them. -/
def recordsOf (type : DataType) (cells : List (Key × Value)) : List Record :=
  cells.map fun cell => ⟨cell.1, type, cell.2⟩

/-- Cells that can be stored as values of a type. -/
structure StorableCells (type : DataType) (cells : List (Key × Value)) : Prop where
  /-- They are of the type. -/
  dataType : ∀ cell ∈ cells, cell.2.dataType = type
  /-- They are written exactly. -/
  isExact : ∀ cell ∈ cells, cell.2.IsExact
  /-- Their keys are below the greatest one. -/
  lt_top : ∀ cell ∈ cells, cell.1 < Key.top

theorem StorableCells.tail {type : DataType} {cell : Key × Value} {cells : List (Key × Value)}
    (h : StorableCells type (cell :: cells)) : StorableCells type cells where
  dataType := (List.forall_mem_cons.mp h.dataType).2
  isExact := (List.forall_mem_cons.mp h.isExact).2
  lt_top := (List.forall_mem_cons.mp h.lt_top).2

namespace Document.IsStorable

variable {doc : Document}

theorem withTags (h : doc.IsStorable) (tags : Tags) : ({ doc with tags } : Document).IsStorable :=
  ⟨h.isExact, h.lt_top⟩

theorem filter (h : doc.IsStorable) (p : Key → Bool) :
    ({ doc with records := doc.records.filter fun k _ => p k } : Document).IsStorable := by
  have hget : ∀ {k v}, (doc.records.filter fun k _ => p k).get? k = some v →
      doc.records.get? k = some v := by
    intro k v hv
    rw [OrderedMap.get?_filter_keys] at hv
    split at hv
    · exact hv
    · cases hv
  exact ⟨fun k v hv => h.isExact k v (hget hv), fun hv => h.lt_top (hget hv)⟩

theorem addCells (h : doc.IsStorable) {type : DataType} {cells : List (Key × Value)}
    (hcells : StorableCells type cells) :
    ({ doc with records := KeyedSeries.addCells doc.records cells } : Document).IsStorable := by
  induction cells generalizing doc with
  | nil => exact h
  | cons cell rest ih =>
    have hexact := (List.forall_mem_cons.mp hcells.isExact).1
    have hlt := (List.forall_mem_cons.mp hcells.lt_top).1
    refine @ih { doc with records := doc.records.insert cell.1 cell.2 } ?_ hcells.tail
    constructor
    · intro k v hv
      rw [OrderedMap.get?_insert] at hv
      split at hv
      · cases hv
        exact hexact
      · exact h.isExact k v hv
    · intro k v hv
      rw [OrderedMap.get?_insert] at hv
      split at hv
      · next heq => exact heq ▸ hlt
      · exact h.lt_top hv

end Document.IsStorable

namespace Catalog

/-! ### What is left of a series -/

/-- What a removal leaves of a series. -/
def removal (tags : Option TagFilter) : Option Document → Option Document :=
  Option.filter fun doc => !TagFilter.accepts tags doc.tags

/-- What a trimming leaves of a series. -/
def trimming (tags : Option TagFilter) (ranges : List KeyRange) :
    Option Document → Option Document :=
  Option.map fun doc =>
    if TagFilter.accepts tags doc.tags then
      { doc with records := doc.records.filter fun key _ => !KeyRange.anyContains ranges key }
    else doc

theorem trimming_nil (tags : Option TagFilter) (doc : Option Document) :
    trimming tags [] doc = doc := by
  cases doc with
  | none => rfl
  | some doc =>
    have hall : (doc.records.filter fun key _ => !KeyRange.anyContains [] key) = doc.records :=
      OrderedMap.ext_get? fun key => by simp [OrderedMap.get?_filter_keys]
    simp only [trimming, Option.map_some, hall, ite_self]

/-- Trimming by one range after the other is trimming by all of them. -/
theorem trimming_cons (tags : Option TagFilter) (range : KeyRange) (ranges : List KeyRange)
    (doc : Option Document) :
    trimming tags (range :: ranges) doc = trimming tags ranges (trimming tags [range] doc) := by
  cases doc with
  | none => rfl
  | some doc =>
    cases haccepts : TagFilter.accepts tags doc.tags with
    | false => simp [trimming, haccepts]
    | true =>
      simp only [trimming, Option.map_some, haccepts, if_true, OrderedMap.filter_filter,
        KeyRange.anyContains_cons, KeyRange.anyContains_nil, Bool.or_false, Bool.not_or]
      simp only [Bool.and_comm]

/-- What a removal with or without ranges leaves of a series. -/
def left (tags : Option TagFilter) (ranges : List KeyRange) : Option Document → Option Document :=
  if ranges.isEmpty then removal tags else trimming tags ranges

theorem left_none (tags : Option TagFilter) (ranges : List KeyRange) :
    left tags ranges none = none := by
  cases ranges <;> rfl

/-- A removal that does not clear its unit leaves of every series what it leaves of
one, if the series is asked for. -/
theorem get?_delete {c : Catalog} {paths : List String} {ranges : List KeyRange}
    {tags : Option TagFilter} {unit : String} (h : ¬Engine.clearsUnit paths ranges tags = true)
    (a : Address) :
    (c.delete paths ranges tags unit).get? a =
      if inUnit unit a && asksFor paths (pathOf a.tail) then left tags ranges (c.get? a)
      else c.get? a := by
  rw [delete, if_neg h, left]
  by_cases hranges : ranges.isEmpty = true
  · rw [if_pos hranges, if_pos hranges, OrderedMap.get?_filter]
    cases c.get? a with
    | none => simp [removal]
    | some doc =>
      cases hasked : inUnit unit a && asksFor paths (pathOf a.tail) <;>
        simp [removal, selects, hasked, Option.filter]
  · rw [if_neg hranges, if_neg hranges, OrderedMap.get?_mapEntries]
    cases c.get? a with
    | none => simp [trimming]
    | some doc =>
      cases hasked : inUnit unit a && asksFor paths (pathOf a.tail) <;>
        simp [trimming, selects, hasked]

end Catalog

namespace DirectoryStore

variable {d : Disk} {series : SeriesInfo} {cells : List (Key × Value)}

/-- Cells of the document's type are added. -/
theorem addRecords_of_dataType (file : FilePath) (doc : Document)
    (h : ∀ cell ∈ cells, cell.2.dataType = doc.dataType) :
    addRecords file doc (recordsOf doc.dataType cells) =
      .ok { doc with records := addCells doc.records cells } := by
  induction cells generalizing doc with
  | nil => rfl
  | cons cell rest ih =>
    obtain ⟨hcell, hrest⟩ := List.forall_mem_cons.mp h
    rw [recordsOf, List.map_cons, addRecords, if_pos ⟨rfl, hcell⟩]
    exact ih { doc with records := doc.records.insert cell.1 cell.2 } hrest

/-- **A column of a series that is not there** makes its document, if it has cells. -/
theorem writeSeries_of_load_eq_none {file : FilePath} (hload : load d file = .ok none)
    (hcells : ∀ cell ∈ cells, cell.2.dataType = series.dataType) :
    writeSeries d file (recordsOf series.dataType cells) series.tags =
      if cells = [] then (.ok (), d)
      else save d file ⟨series.dataType, series.tags, addCells .empty cells⟩ := by
  have hadd := addRecords_of_dataType file ⟨series.dataType, .empty, .empty⟩ hcells
  rw [writeSeries, hload]
  cases cells with
  | nil => rfl
  | cons cell rest =>
    rw [if_neg (List.cons_ne_nil _ _)]
    simp only [recordsOf, List.map_cons, List.head?_cons, Option.map_some] at hadd ⊢
    rw [hadd]

end DirectoryStore

namespace Mirrors

variable {used : Address → Prop} {d : Disk} {root : Place} {c : Catalog} {a : Address}

/-- A series comes into being with its first cells. -/
theorem writeSeries_of_none (h : Mirrors used d root c) (hs : IsScheme used) (ha : used a)
    (hnone : c.get? a = none) {series : SeriesInfo} {cells : List (Key × Value)}
    (hcells : StorableCells series.dataType cells) (hne : cells ≠ []) :
    ∃ d', writeSeries d (ofPlace (root ++ a)) (recordsOf series.dataType cells) series.tags =
        (.ok (), d') ∧
      Mirrors used d' root (c.insert a ⟨series.dataType, series.tags, .ofList cells⟩) := by
  have hempty : Document.IsStorable ⟨series.dataType, series.tags, .empty⟩ := ⟨nofun, nofun⟩
  obtain ⟨d', hrun, hd'⟩ := h.save_eq hs ha (hempty.addCells hcells)
  have hload := (h.load_eq hs ha).trans (congrArg Except.ok hnone)
  refine ⟨d', ?_, hd'⟩
  rw [writeSeries_of_load_eq_none hload hcells.dataType, if_neg hne]
  exact hrun

/-- A series takes cells of its own type. -/
theorem writeSeries_of_dataType (h : Mirrors used d root c) (hs : IsScheme used) (ha : used a)
    {doc : Document} (hdoc : c.get? a = some doc) {cells : List (Key × Value)}
    (hcells : StorableCells doc.dataType cells) (tags : Tags) :
    ∃ d', writeSeries d (ofPlace (root ++ a)) (recordsOf doc.dataType cells) tags = (.ok (), d') ∧
      Mirrors used d' root (c.insert a ⟨doc.dataType, tags, addCells doc.records cells⟩) := by
  obtain ⟨d', hrun, hd'⟩ := h.save_eq hs ha (((h.isStorable hdoc).addCells hcells).withTags tags)
  refine ⟨d', ?_, hd'⟩
  rw [writeSeries, h.load_eq hs ha, hdoc]
  simp only [addRecords_of_dataType _ doc hcells.dataType]
  exact hrun

/-- A column without cells only gives a series its tags, whatever its type. -/
theorem writeSeries_nil (h : Mirrors used d root c) (hs : IsScheme used) (ha : used a)
    {doc : Document} (hdoc : c.get? a = some doc) (tags : Tags) :
    ∃ d', writeSeries d (ofPlace (root ++ a)) [] tags = (.ok (), d') ∧
      Mirrors used d' root (c.insert a ⟨doc.dataType, tags, doc.records⟩) := by
  obtain ⟨d', hrun, hd'⟩ := h.save_eq hs ha ((h.isStorable hdoc).withTags tags)
  refine ⟨d', ?_, hd'⟩
  rw [writeSeries, h.load_eq hs ha, hdoc]
  exact hrun

/-- **Cells are added** to a series as the catalog adds them. The first cell of
another type than the series is a clash, and then nothing changes. -/
theorem writeSeries_eq (h : Mirrors used d root c) (hs : IsScheme used) (ha : used a)
    {series : SeriesInfo} {cells : List (Key × Value)}
    (hcells : StorableCells series.dataType cells) :
    match c.upsert a series cells with
    | .ok c' => ∃ d', writeSeries d (ofPlace (root ++ a)) (recordsOf series.dataType cells)
        series.tags = (.ok (), d') ∧ Mirrors used d' root c'
    | .error clash =>
        writeSeries d (ofPlace (root ++ a)) (recordsOf series.dataType cells) series.tags =
          (.error (clash.cause root), d) := by
  rw [Catalog.upsert]
  cases hdoc : c.get? a with
  | none =>
    cases cells with
    | nil =>
      rw [writeSeries, h.load_eq hs ha, hdoc]
      exact ⟨d, rfl, h⟩
    | cons cell rest => exact h.writeSeries_of_none hs ha hdoc hcells (List.cons_ne_nil _ _)
  | some doc =>
    by_cases htype : series.dataType = doc.dataType
    · have hfind : cells.find? (fun cell => cell.2.dataType != doc.dataType) = none := by
        rw [List.find?_eq_none]
        intro cell hcell
        simp [hcells.dataType cell hcell, htype]
      rw [htype] at hcells ⊢
      simp only [hfind]
      exact h.writeSeries_of_dataType hs ha hdoc hcells series.tags
    · cases cells with
      | nil => exact h.writeSeries_nil hs ha hdoc series.tags
      | cons cell rest =>
        -- All cells are of the type of the column, so the first one clashes.
        have hcell : cell.2.dataType = series.dataType := hcells.dataType cell List.mem_cons_self
        have hfind : (cell :: rest).find? (fun cell => cell.2.dataType != doc.dataType) =
            some cell := List.find?_cons_of_pos (by simpa [hcell] using htype)
        simp only [hfind]
        rw [writeSeries, h.load_eq hs ha, hdoc, recordsOf, List.map_cons]
        simp [addRecords, htype, Clash.cause]

/-! ### Removing and trimming -/

open Catalog (removal trimming)

theorem alter_of_some {f : Option Document → Option Document} {doc : Document}
    (hdoc : f (c.get? a) = some doc) : c.alter a f = c.insert a doc := by
  rw [OrderedMap.alter, hdoc]

theorem alter_of_none {f : Option Document → Option Document} (hdoc : f (c.get? a) = none) :
    c.alter a f = c.erase a := by
  rw [OrderedMap.alter, hdoc]

theorem alter_eq_self {f : Option Document → Option Document} (hdoc : f (c.get? a) = c.get? a) :
    c.alter a f = c := by
  refine OrderedMap.ext_get? fun b => ?_
  rw [OrderedMap.get?_alter]
  split
  · next heq => rw [heq, hdoc]
  · rfl

/-- **A series is removed** if its tags are accepted. -/
theorem removeOne_eq (h : Mirrors used d root c) (hs : IsScheme used) (ha : used a)
    (tags : Option TagFilter) :
    ∃ d', removeOne d tags (ofPlace (root ++ a)) = (.ok (), d') ∧
      Mirrors used d' root (c.alter a (removal tags)) := by
  simp only [removeOne, h.isDir_eq_false hs ha, Bool.false_eq_true, if_false]
  cases tags with
  | none =>
    rw [alter_of_none]
    · exact h.erase_eq hs ha
    · cases c.get? a <;> rfl
  | some f =>
    simp only [h.load_eq hs ha]
    cases hdoc : c.get? a with
    | none =>
      rw [alter_eq_self (by rw [hdoc]; rfl)]
      exact ⟨d, rfl, h⟩
    | some doc =>
      cases hmet : f.isMet doc.tags with
      | true =>
        rw [alter_of_none (by simp [hdoc, removal, TagFilter.accepts, hmet])]
        simpa only [hmet, if_true] using h.erase_eq hs ha
      | false =>
        rw [alter_eq_self (by simp [hdoc, removal, TagFilter.accepts, hmet])]
        exact ⟨d, by simp only [hmet, Bool.false_eq_true, if_false], h⟩

/-- **A series is trimmed** if its tags are accepted. -/
theorem trimOne_eq (h : Mirrors used d root c) (hs : IsScheme used) (ha : used a)
    (tags : Option TagFilter) (range : KeyRange) :
    ∃ d', trimOne d tags range (ofPlace (root ++ a)) = (.ok (), d') ∧
      Mirrors used d' root (c.alter a (trimming tags [range])) := by
  simp only [trimOne, h.load_eq hs ha]
  cases hdoc : c.get? a with
  | none =>
    rw [alter_eq_self (by rw [hdoc]; rfl)]
    exact ⟨d, rfl, h⟩
  | some doc =>
    cases haccepts : TagFilter.accepts tags doc.tags with
    | false =>
      -- The tags are not accepted, and the file stays as it is.
      rw [alter_eq_self (by simp [hdoc, trimming, haccepts])]
      exact ⟨d, by simp only [haccepts, Bool.false_and, Bool.false_eq_true, if_false], h⟩
    | true =>
      simp only [haccepts, Bool.true_and, bne_iff_ne, ne_eq, ite_not]
      split
      · next hsize =>
        -- No record was in the range.
        have hsame : (doc.records.filter fun key _ => !range.contains key) = doc.records :=
          OrderedMap.filter_eq_self_of_size hsize
        rw [alter_eq_self (by simp [hdoc, trimming, haccepts, hsame])]
        exact ⟨d, rfl, h⟩
      · have htrimmed : trimming tags [range] (c.get? a) =
            some { doc with records := doc.records.filter fun key _ => !range.contains key } := by
          simp [hdoc, trimming, haccepts]
        rw [alter_of_some htrimmed]
        exact h.save_eq hs ha ((h.isStorable hdoc).filter fun key => !range.contains key)

end Mirrors

end KeyedSeries

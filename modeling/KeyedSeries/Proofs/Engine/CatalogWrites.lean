import KeyedSeries.Proofs.DataView
import KeyedSeries.Proofs.Engine.CatalogReads

/-!
# Writing to a catalog

An engine whose disk mirrors a catalog goes on mirroring it when it writes: after an
insertion the catalog with the cells added (`KeyedSeries.Engine.outcome_insert`),
after a removal the catalog without what was removed
(`KeyedSeries.Engine.outcome_delete`). **A removal never fails, and an insertion only
at a clash**; what it did before is done in the catalog, too.
-/

namespace KeyedSeries

open Disk FilePath

/-! ### Insertions -/

section Insertion

variable {used : Address → Prop} {d : Disk} {root : Place} {c : Catalog} {unit : String}

/-- The file, the records and the tags of a column, as the store takes them. -/
def columnAt (root : Place) (unit : String) (column : SeriesInfo × List (Key × Value)) :
    FilePath × List Record × Tags :=
  (ofPlace (root ++ unit :: Location.segments column.1.path),
    recordsOf column.1.dataType column.2, column.1.tags)

/-- **Columns are written** one after the other, up to the first clash. -/
theorem Mirrors.writeColumns_eq (h : Mirrors used d root c) (hs : IsScheme used)
    {columns : List (SeriesInfo × List (Key × Value))}
    (hcolumns : ∀ column ∈ columns, used (unit :: Location.segments column.1.path) ∧
      StorableCells column.1.dataType column.2) :
    ∃ d', DirectoryStore.forAll
        (fun d (file, records, tags) => DirectoryStore.writeSeries d file records tags) d
        (columns.map (columnAt root unit)) =
          ((c.insertColumns unit columns).1.mapError (Clash.cause root), d') ∧
      Mirrors used d' root (c.insertColumns unit columns).2 := by
  induction columns generalizing d c with
  | nil => exact ⟨d, rfl, h⟩
  | cons column rest ih =>
    obtain ⟨⟨hused, hcells⟩, hrest⟩ := List.forall_mem_cons.mp hcolumns
    have hwrite := h.writeSeries_eq hs hused hcells
    rw [List.map_cons, DirectoryStore.forAll, Catalog.insertColumns]
    cases hupsert : c.upsert (unit :: Location.segments column.1.path) column.1 column.2 with
    | ok c' =>
      rw [hupsert] at hwrite
      obtain ⟨d', hrun, h'⟩ := hwrite
      simp only [columnAt, hrun]
      exact ih h' hrest
    | error clash =>
      rw [hupsert] at hwrite
      simp only [columnAt, hwrite]
      exact ⟨d, rfl, h⟩

end Insertion

namespace Engine

open Catalog

variable {used : Address → Prop} {e : Engine DirectoryStore} {s : EngineState DirectoryStore}
  {root : Place} {c : Catalog} {unit : String}

/-- The files of columns are those of their addresses. -/
theorem filesOf_ofPlace (hroot : ∀ n ∈ root, Fits n) {columns : List SeriesInfo}
    (hcolumns : ∀ series ∈ columns, ∃ segments, series.path = pathOf segments ∧ Fits unit ∧
      segments ≠ [] ∧ ∀ s ∈ segments, IsSegment s) :
    filesOf (ofPlace root) unit columns =
      .ok (columns.map fun series => ofPlace (root ++ unit :: Location.segments series.path)) := by
  induction columns with
  | nil => rfl
  | cons series rest ih =>
    obtain ⟨⟨segments, hpath, hunit, hne, hsegments⟩, hrest⟩ := List.forall_mem_cons.mp hcolumns
    have hbase : ∀ n ∈ root ++ [unit], Fits n := by
      simpa [or_imp, forall_and] using ⟨hroot, hunit⟩
    rw [filesOf, Location.file, unitDir_ofPlace hroot hunit, hpath]
    simp only [fileBelow_pathOf hbase hne hsegments, ih hrest, List.map_cons, hpath,
      segments_pathOf hsegments]
    simp

/-- An insertion writes all columns at once, and answers as the store does. -/
theorem outcome_insert_of_writeAll (he : e.Manages root) (hshows : s.Shows used root c)
    {view : DataView} {files : List FilePath}
    (hfiles : filesOf (ofPlace root) unit view.columns = .ok files)
    {result : Except Failure Unit} {d' : Disk}
    (hall : DirectoryStore.writeAll files view.records (view.columns.map (·.tags)) s.store.disk =
      (result, d')) :
    ∃ locks, outcome (e.insert view unit) s =
      (result.mapError (.task .insert),
        { s with store := { s.store with disk := d' }, locks }) := by
  obtain ⟨chunkSize, hstore⟩ := he.store
  have hopen := hshows.outcome_requireOpen
  have hwrite := DirectoryStore.outcome_write chunkSize hshows.storeIsOpen hall
  rw [← hstore] at hwrite
  rw [Engine.insert, DataView.encode_eq_records]
  simp only [outcome_bind, hopen, outcome_known, writableRoot, he.writable, Bool.false_eq_true,
    if_false, managedRoot, he.managed, hfiles, outcome_guarded, outcome_callFor, hwrite]
  exact ⟨_, rfl⟩

/-- **An insertion** adds the cells of a view to the catalog, up to the first
clash. -/
theorem outcome_insert (he : e.Manages root) (hs : IsScheme used) (hshows : s.Shows used root c)
    {view : DataView}
    (hcolumns : ∀ series ∈ view.columns, ∃ segments, used (unit :: segments) ∧
      series.path = pathOf segments)
    (hexact : ∀ values ∈ view.values, ∀ v ∈ values, v.IsExact) :
    ∃ s', outcome (e.insert view unit) s =
        ((c.insertView view unit).1.mapError (Clash.failure root), s') ∧
      s'.Shows used root (c.insertView view unit).2 := by
  have hstorable : ∀ column ∈ view.cellColumns, used (unit :: Location.segments column.1.path) ∧
      StorableCells column.1.dataType column.2 := by
    intro column hcolumn
    obtain ⟨segments, hused, hpath⟩ := hcolumns column.1 (DataView.mem_columns hcolumn)
    refine ⟨?_, DataView.storableCells hexact hcolumn⟩
    rw [hpath, segments_pathOf (hs.isAddress hused).segments.2]
    exact hused
  have hfiles : filesOf (ofPlace root) unit view.columns =
      .ok (view.cellColumns.map fun column => (columnAt root unit column).1) := by
    rw [filesOf_ofPlace hshows.fits_root fun series hseries => ?_, ← view.map_cellColumns]
    · rfl
    · obtain ⟨segments, hused, hpath⟩ := hcolumns series hseries
      have haddress := hs.isAddress hused
      exact ⟨segments, hpath, haddress.fits unit List.mem_cons_self, haddress.segments⟩
  have hrecords : view.records =
      view.cellColumns.map fun column => (columnAt root unit column).2.1 := view.records_eq
  have htags : view.columns.map (·.tags) =
      view.cellColumns.map fun column => (columnAt root unit column).2.2 :=
    (view.map_cellColumns (·.tags)).symm
  obtain ⟨d', hrun, hmirrors⟩ := hshows.mirrors.writeColumns_eq hs hstorable
  have hall : DirectoryStore.writeAll
      (view.cellColumns.map fun column => (columnAt root unit column).1) view.records
      (view.columns.map (·.tags)) s.store.disk =
        ((c.insertColumns unit view.cellColumns).1.mapError (Clash.cause root), d') := by
    rw [hrecords, htags, DirectoryStore.writeAll, if_neg (by simp), List.zip_map', List.zip_map']
    exact hrun
  obtain ⟨locks, hinsert⟩ := outcome_insert_of_writeAll he hshows hfiles hall
  refine ⟨_, hinsert.trans (Prod.ext ?_ rfl), ⟨hshows.isOpen, hshows.storeIsOpen, hmirrors⟩⟩
  -- The failure of the store is that of the clash, as the cause of the failure of the insertion.
  show _ = (c.insertColumns unit view.cellColumns).1.mapError (Clash.failure root)
  cases (c.insertColumns unit view.cellColumns).1 <;> rfl

/-- A series cannot be made if the name of its hidden file is too long. -/
theorem writeSeries_of_longDraft {d : Disk} (h : Mirrors used d root c) {p : Address}
    {name : String} (hfits : ∀ n ∈ root ++ p ++ [name], Fits n) (hname : IsSegment name)
    (hlong : nameLimit < (DirectoryStore.draftName name).utf8ByteSize)
    (hvacant : ∀ b, b <+: p ++ [name] → c.get? b = none) {series : SeriesInfo}
    {cells : List (Key × Value)} (hcells : ∀ cell ∈ cells, cell.2.dataType = series.dataType)
    (hne : cells ≠ []) :
    ∃ d', DirectoryStore.writeSeries d (ofPlace (root ++ p ++ [name]))
      (recordsOf series.dataType cells) series.tags = (.error (.io .invalidFilename), d') := by
  have hway : d.Vacant (root ++ p ++ [name]) := by
    rw [List.append_assoc]
    exact h.vacant hvacant
  -- The document is there, but not the file.
  obtain ⟨d', hsave⟩ := DirectoryStore.save_of_longDraft h.isTree hfits hname.isPlain_draftName
    hlong (fun r hr => hway r (hr.trans (List.prefix_append _ _)))
    ⟨series.dataType, series.tags, addCells .empty cells⟩
  refine ⟨d', ?_⟩
  rw [DirectoryStore.writeSeries_of_load_eq_none
    (DirectoryStore.load_of_vacant h.isTree hfits hway) hcells, if_neg hne]
  exact hsave

/-- **An insertion of the cells of such a series fails** with the failure of the file
system. -/
theorem outcome_insert_of_longDraft (he : e.Manages root) (hshows : s.Shows used root c)
    {view : DataView} {series : SeriesInfo} (hcolumns : view.columns = [series])
    {parents : List String} {name : String} (hpath : series.path = pathOf (parents ++ [name]))
    (hunit : Fits unit) (hsegments : ∀ s ∈ parents ++ [name], IsSegment s)
    (hlong : nameLimit < (DirectoryStore.draftName name).utf8ByteSize)
    (hvacant : ∀ b, b <+: unit :: (parents ++ [name]) → c.get? b = none)
    (hcells : ∀ cell ∈ view.cells 0, cell.2.dataType = series.dataType) (hne : view.cells 0 ≠ []) :
    ∃ s', outcome (e.insert view unit) s = (.error (.task .insert (.io .invalidFilename)), s') := by
  have hassoc : root ++ unit :: (parents ++ [name]) = root ++ unit :: parents ++ [name] := by simp
  have hfits : ∀ n ∈ root ++ unit :: parents ++ [name], Fits n := by
    rw [← hassoc]
    refine hshows.mirrors.fits fun n hn => ?_
    rcases List.mem_cons.mp hn with rfl | hn
    · exact hunit
    · exact (hsegments n hn).fits
  have hfiles : filesOf (ofPlace root) unit view.columns =
      .ok [ofPlace (root ++ unit :: parents ++ [name])] := by
    rw [hcolumns, filesOf_ofPlace hshows.fits_root fun series' hseries => ?_]
    · rw [List.map_singleton, hpath, segments_pathOf hsegments, hassoc]
    · exact ⟨_, List.mem_singleton.mp hseries ▸ hpath, hunit, by simp, hsegments⟩
  have hrecords : view.records = [recordsOf series.dataType (view.cells 0)] := by
    rw [DataView.records_eq, DataView.cellColumns, hcolumns]
    rfl
  obtain ⟨d', hwrite⟩ := writeSeries_of_longDraft hshows.mirrors hfits (hsegments name (by simp))
    hlong hvacant hcells hne
  have hall : DirectoryStore.writeAll [ofPlace (root ++ unit :: parents ++ [name])] view.records
      (view.columns.map (·.tags)) s.store.disk = (.error (.io .invalidFilename), d') := by
    rw [hrecords, hcolumns, DirectoryStore.writeAll, if_neg (by simp)]
    simp only [List.map_singleton, List.zip_cons_cons, List.zip_nil_left, DirectoryStore.forAll,
      hwrite]
  obtain ⟨locks, hinsert⟩ := outcome_insert_of_writeAll he hshows hfiles hall
  exact ⟨_, hinsert⟩

/-! ### Removals -/

/-- What becomes of one series after the other. -/
def alterAll (f : Option Document → Option Document) (c : Catalog) (as : List Address) : Catalog :=
  as.foldl (fun c a => c.alter a f) c

theorem get?_alterAll (f : Option Document → Option Document) (c : Catalog) {as : List Address}
    (hnodup : as.Nodup) (a : Address) :
    (alterAll f c as).get? a = if a ∈ as then f (c.get? a) else c.get? a := by
  induction as generalizing c with
  | nil => rfl
  | cons b rest ih =>
    obtain ⟨hb, hrest⟩ := List.nodup_cons.mp hnodup
    show (alterAll f (c.alter b f) rest).get? a = _
    rw [ih (c.alter b f) hrest, OrderedMap.get?_alter]
    by_cases hab : a = b
    · subst hab
      simp [hb]
    · simp [hab]

/-- Work on one file that does to the catalog what `f` does to a series. -/
def Alters (used : Address → Prop) (root : Place) (f : Option Document → Option Document)
    (work : FilePath → Action DirectoryStore Unit) : Prop :=
  ∀ (c : Catalog) (s : DirectoryStore) (a : Address), s.closed = false →
    Mirrors used s.disk root c → used a →
      ∃ d', outcome (work (ofPlace (root ++ a))) s = (.ok (), { s with disk := d' }) ∧
        Mirrors used d' root (c.alter a f)

/-- Work on every file does to the catalog what it does to every series. -/
theorem outcome_onEach {f : Option Document → Option Document}
    {work : FilePath → Action DirectoryStore Unit} (hwork : Alters used root f work)
    {s : DirectoryStore} (hopen : s.closed = false) (h : Mirrors used s.disk root c)
    {as : List Address} (has : ∀ a ∈ as, used a) :
    ∃ d', outcome (onEach work (as.map fun a => ofPlace (root ++ a))) s =
        (.ok (), { s with disk := d' }) ∧ Mirrors used d' root (alterAll f c as) := by
  induction as generalizing s c with
  | nil => exact ⟨s.disk, rfl, h⟩
  | cons a rest ih =>
    obtain ⟨ha, hrest⟩ := List.forall_mem_cons.mp has
    obtain ⟨d₁, hfirst, h₁⟩ := hwork c s a hopen h ha
    obtain ⟨d₂, hothers, h₂⟩ := ih (s := { s with disk := d₁ }) hopen h₁ hrest
    refine ⟨d₂, ?_, h₂⟩
    unfold outcome at hfirst hothers ⊢
    rw [List.map_cons, onEach]
    simp only [hfirst, hothers]

/-- Removing the series of a file. -/
theorem alters_removeSeries (hs : IsScheme used) (chunkSize : Nat) (tags : Option TagFilter) :
    Alters used root (removal tags)
      fun file => (DirectoryStore.store chunkSize).removeSeries [file] tags := by
  intro c s a hopen h ha
  obtain ⟨d', hrun, h'⟩ := h.removeOne_eq hs ha tags
  exact ⟨d', DirectoryStore.outcome_removeSeries chunkSize hopen hrun, h'⟩

/-- Trimming the series of a file by several ranges. -/
theorem alters_trimAll (hs : IsScheme used) {chunkSize : Nat}
    (hstore : e.store = DirectoryStore.store chunkSize) (tags : Option TagFilter)
    (ranges : List KeyRange) :
    Alters used root (trimming tags ranges) fun file => e.trimAll tags file ranges := by
  induction ranges with
  | nil =>
    intro c s a hopen h ha
    rw [Mirrors.alter_eq_self (trimming_nil tags _)]
    exact ⟨s.disk, rfl, h⟩
  | cons range rest ih =>
    intro c s a hopen h ha
    obtain ⟨d₁, hfirst, h₁⟩ := h.trimOne_eq hs ha tags range
    obtain ⟨d₂, hothers, h₂⟩ := ih _ { s with disk := d₁ } a hopen h₁ ha
    have hsame : (c.alter a (trimming tags [range])).alter a (trimming tags rest) =
        c.alter a (trimming tags (range :: rest)) := by
      refine OrderedMap.ext_get? fun b => ?_
      simp only [OrderedMap.get?_alter, if_true, trimming_cons tags range rest]
      split <;> rfl
    rw [hsame] at h₂
    have htrim := DirectoryStore.outcome_trim chunkSize hopen hfirst
    rw [← hstore] at htrim
    refine ⟨d₂, ?_, h₂⟩
    unfold outcome at htrim hothers ⊢
    simp only [trimAll, htrim, hothers]

/-- What becomes of the series that are asked for becomes of all that the catalog
selects. -/
theorem get?_alterAll_of_askedFor {f : Option Document → Option Document} (hnone : f none = none)
    {paths : List String} {as : List Address} (has : AskedFor used c unit paths as)
    (hsorted : as.Pairwise fun a b => compare a b = .lt) (a : Address) :
    (alterAll f c as).get? a =
      if Catalog.inUnit unit a && asksFor paths (pathOf a.tail) then f (c.get? a)
      else c.get? a := by
  have hnodup : as.Nodup := hsorted.imp fun {a b} hab heq => by
    rw [heq] at hab
    exact absurd (hab.symm.trans Std.ReflCmp.compare_self) nofun
  rw [get?_alterAll f c hnodup]
  cases hdoc : c.get? a with
  | none => rw [hnone, ite_self, ite_self]
  | some doc =>
    have hmem : a ∈ as ↔ (Catalog.inUnit unit a && asksFor paths (pathOf a.tail)) = true := by
      rw [Bool.and_eq_true]
      constructor
      · exact fun ha => ⟨has.inUnit ha, (has.mem_iff hdoc (has.inUnit ha)).mp ha⟩
      · exact fun ⟨hin, hasks⟩ => (has.mem_iff hdoc hin).mpr hasks
    simp only [hmem]

/-- **A removal** takes from the catalog what it says, and never fails. -/
theorem outcome_delete (he : e.Manages root) (hs : IsScheme used) (hshows : s.Shows used root c)
    (hunit : Fits unit) {paths : List String} (hpaths : PlainPathsIn used unit paths)
    (ranges : List KeyRange) (tags : Option TagFilter) :
    ∃ s', outcome (e.delete paths ranges tags unit) s = (.ok (), s') ∧
      s'.Shows used root (c.delete paths ranges tags unit) := by
  have hroot := hshows.fits_root
  obtain ⟨chunkSize, hstore⟩ := he.store
  have hopen := hshows.outcome_requireOpen
  rw [Engine.delete]
  simp only [outcome_bind, hopen, outcome_known, writableRoot, he.writable, Bool.false_eq_true,
    if_false, managedRoot, he.managed, unitDir_ofPlace hroot hunit]
  by_cases hclears : clearsUnit paths ranges tags = true
  · -- The whole unit goes.
    obtain ⟨d', hrun, hmirrors⟩ := hshows.mirrors.clear_eq hs hunit
    have hremove := DirectoryStore.outcome_remove chunkSize hshows.storeIsOpen hrun
    rw [← hstore] at hremove
    rw [if_pos hclears, Catalog.delete, if_pos hclears]
    simp only [outcome_guarded, outcome_callFor, hremove]
    exact ⟨_, rfl, ⟨hshows.isOpen, hshows.storeIsOpen, hmirrors⟩⟩
  · -- Each series that is asked for goes through the same work.
    obtain ⟨as, hresolve, has, hsorted⟩ := outcome_resolve he hs
      (hshows.withLocks (s.locks.acquire (.readUnit unit))) hunit .delete hpaths
    have hfiles : ((as.map (targetAt root)).map fun t => t.file) =
        as.map fun a => ofPlace (root ++ a) := by
      rw [List.map_map]
      rfl
    -- What every file goes through, and what becomes of its series.
    have hwork : Alters used root (left tags ranges) fun file =>
        if ranges.isEmpty then e.store.removeSeries [file] tags
        else e.trimAll tags file ranges := by
      cases ranges with
      | nil =>
        have hremove : Alters used root (removal tags) _ := alters_removeSeries hs chunkSize tags
        rw [← hstore] at hremove
        exact hremove
      | cons range rest => exact alters_trimAll hs hstore tags (range :: rest)
    have hcatalog : alterAll (left tags ranges) c as = c.delete paths ranges tags unit :=
      OrderedMap.ext_get? fun a => by
        rw [get?_alterAll_of_askedFor (left_none tags ranges) has hsorted, get?_delete hclears]
    obtain ⟨d', hrun, hmirrors⟩ := outcome_onEach hwork hshows.storeIsOpen hshows.mirrors
      fun a ha => has.isUsed ha
    rw [if_neg hclears]
    simp only [outcome_bind, outcome_guarded, hresolve, hfiles, outcome_callFor, hrun]
    exact ⟨_, rfl, ⟨hshows.isOpen, hshows.storeIsOpen, hcatalog ▸ hmirrors⟩⟩

end Engine

end KeyedSeries

import KeyedSeries.Proofs.Engine.Targets
import KeyedSeries.Proofs.Store.Reading

/-!
# Reading a catalog

An engine whose disk mirrors a catalog shows the rows and the series of the catalog
(`KeyedSeries.Engine.outcome_project`, `KeyedSeries.Engine.outcome_schema`). Reading
never fails there, and it changes nothing but the numbers of locks.
-/

namespace KeyedSeries

open Disk FilePath

namespace EngineState.Shows

variable {used : Address → Prop} {s : EngineState DirectoryStore} {root : Place} {c : Catalog}

/-- Locks do not matter to what an engine shows. -/
theorem withLocks (h : s.Shows used root c) (locks : LockTable) :
    ({ s with locks } : EngineState DirectoryStore).Shows used root c :=
  ⟨h.isOpen, h.storeIsOpen, h.mirrors⟩

theorem outcome_requireOpen (h : s.Shows used root c) :
    outcome Engine.requireOpen s = (.ok (), s) := by
  rw [Engine.outcome_requireOpen, h.isOpen]
  rfl

theorem fits_root (h : s.Shows used root c) : ∀ n ∈ root, Fits n :=
  h.mirrors.isTree.fits h.mirrors.isDir

end EngineState.Shows

namespace Engine

open Catalog

variable {used : Address → Prop} {e : Engine DirectoryStore} {s : EngineState DirectoryStore}
  {root : Place} {c : Catalog} {unit : String}

/-! ### Tables -/

/-- The table of the series at an address, by the path of the series. -/
def tableAt (root : Place) (ranges : List KeyRange) (found : Address × Document) : String × Table :=
  (pathOf found.1.tail, ⟨ofPlace (root ++ found.1), found.2.dataType, found.2.tags,
    DirectoryStore.recordsIn found.2 ranges⟩)

/-- The series at addresses whose tags are accepted. -/
def seriesAt (c : Catalog) (tags : Option TagFilter) (as : List Address) :
    List (Address × Document) :=
  as.filterMap fun a => ((c.get? a).filter fun doc => TagFilter.accepts tags doc.tags).map (a, ·)

theorem mem_seriesAt {tags : Option TagFilter} {as : List Address} {a : Address} {doc : Document} :
    (a, doc) ∈ seriesAt c tags as ↔
      a ∈ as ∧ c.get? a = some doc ∧ TagFilter.accepts tags doc.tags = true := by
  simp only [seriesAt, List.mem_filterMap, Option.map_eq_some_iff, Option.filter_eq_some_iff,
    Prod.mk.injEq]
  constructor
  · rintro ⟨_, ha, _, hdoc, rfl, rfl⟩
    exact ⟨ha, hdoc⟩
  · rintro ⟨ha, hdoc⟩
    exact ⟨a, ha, doc, hdoc, rfl, rfl⟩

/-- The tables of targets are those of the series there. -/
theorem outcome_readAll (he : e.Manages root) (hs : IsScheme used) (hshows : s.Shows used root c)
    (tags : Option TagFilter) (ranges : List KeyRange) {as : List Address}
    (has : ∀ a ∈ as, used a) :
    outcome (e.readAll tags ranges false (as.map (targetAt root))) s =
      (.ok ((seriesAt c tags as).map (tableAt root ranges)), s) := by
  obtain ⟨chunkSize, hstore⟩ := he.store
  induction as with
  | nil => rfl
  | cons a rest ih =>
    obtain ⟨ha, hrest⟩ := List.forall_mem_cons.mp has
    obtain ⟨found, hfound⟩ : ∃ found, found =
        ((c.get? a).filter fun doc => TagFilter.accepts tags doc.tags).map (a, ·) := ⟨_, rfl⟩
    have hseries : DirectoryStore.readSeries s.store.disk (ofPlace (root ++ a)) tags ranges =
        .ok (found.toList.map fun x => (tableAt root ranges x).2) := by
      rw [DirectoryStore.readSeries, hshows.mirrors.load_eq hs ha, hfound]
      cases c.get? a with
      | none => rfl
      | some doc => cases haccepts : TagFilter.accepts tags doc.tags <;>
          simp [haccepts, tableAt, Option.filter]
    have hread :
        outcome (callFor .project (e.store.read (ofPlace (root ++ a)) tags ranges false)) s =
        (.ok (found.toList.map fun x => (tableAt root ranges x).2), s) := by
      rw [outcome_callFor_eq_ok_iff, hstore]
      exact ⟨s.store, DirectoryStore.outcome_read_eq_ok_iff.mpr
        ⟨hshows.storeIsOpen, by simpa using hseries, rfl⟩, rfl⟩
    -- At an address there is one series or none.
    have hcons : seriesAt c tags (a :: rest) = found.toList ++ seriesAt c tags rest := by
      rw [hfound, seriesAt, List.filterMap_cons]
      cases (c.get? a).filter fun doc => TagFilter.accepts tags doc.tags <;> rfl
    rw [List.map_cons, readAll]
    simp only [outcome_bind, targetAt, hread, outcome_pure] at ih ⊢
    rw [ih hrest]
    simp only [hcons, List.map_append, List.map_map]
    cases hvalue : found with
    | none => rfl
    | some x =>
      have hx : x.1 = a := by
        rw [hvalue] at hfound
        obtain ⟨doc, -, rfl⟩ := Option.map_eq_some_iff.mp hfound.symm
        rfl
      rw [← hx]
      rfl

/-! ### Rows -/

/-- The series at the addresses asked for are those that the catalog selects. -/
theorem seriesAt_eq {paths : List String} {tags : Option TagFilter} {as : List Address}
    (has : AskedFor used c unit paths as) (hsorted : as.Pairwise fun a b => compare a b = .lt) :
    seriesAt c tags as = c.toList.filter fun (a, doc) => selects unit paths tags a doc := by
  refine OrderedMap.eq_of_mem_iff Prod.fst ?_ (c.ascending.filter _) fun ⟨a, doc⟩ => ?_
  · refine List.pairwise_filterMap.mpr (hsorted.imp fun {a b} hab x hx y hy => ?_)
    obtain ⟨_, -, rfl⟩ := Option.map_eq_some_iff.mp hx
    obtain ⟨_, -, rfl⟩ := Option.map_eq_some_iff.mp hy
    exact hab
  · rw [mem_seriesAt, List.mem_filter, OrderedMap.mem_toList_iff]
    simp only [selects, Bool.and_eq_true]
    constructor
    · rintro ⟨ha, hdoc, htags⟩
      exact ⟨hdoc, ⟨has.inUnit ha, (has.mem_iff hdoc (has.inUnit ha)).mp ha⟩, htags⟩
    · rintro ⟨hdoc, ⟨hin, hasks⟩, htags⟩
      exact ⟨(has.mem_iff hdoc hin).mpr hasks, hdoc, htags⟩

section Tables

variable {found : List (Address × Document)}

theorem headerOf_tables (root : Place) (ranges : List KeyRange)
    (found : List (Address × Document)) :
    Rows.headerOf (found.map (tableAt root ranges)) = found.map fun (a, doc) => infoOf a doc := by
  rw [Rows.headerOf, List.map_map]
  rfl

theorem narrowed_tables (root : Place) (ranges : List KeyRange)
    (found : List (Address × Document)) :
    Rows.Narrowed ranges (found.map (tableAt root [KeyRange.full]))
      (found.map (tableAt root ranges)) := by
  rw [Rows.Narrowed, List.forall₂_map_left_iff, List.forall₂_map_right_iff, List.forall₂_same]
  exact fun x _ => ⟨rfl, DirectoryStore.narrowed_of_byKey rfl rfl
    (DirectoryStore.byKey_recordsIn ..) (DirectoryStore.byKey_recordsIn ..)⟩

theorem contents_tables (root : Place) (h : ∀ x ∈ found, x.2.IsStorable) :
    Rows.contents (found.map (tableAt root [KeyRange.full])) = found.map (·.2.records) := by
  rw [Rows.contents, List.map_map]
  refine List.map_congr_left fun x hx => ?_
  rw [Function.comp_apply, tableAt, DirectoryStore.byKey_recordsIn]
  refine OrderedMap.ext_get? fun k => ?_
  rw [OrderedMap.get?_filter_keys]
  split
  · rfl
  · next hk =>
    -- Every stored key is in the full range.
    rw [eq_comm, Option.eq_none_iff_forall_ne_some]
    exact fun v hv => hk (KeyRange.anyContains_full.mpr ((h x hx).lt_top hv))

/-- The rows of the tables of series are those of their records. -/
theorem ofTables_tables (root : Place) (h : ∀ x ∈ found, x.2.IsStorable) (filter : Option Filter) :
    Rows.ofTables (found.map (tableAt root (Filter.reach filter))) filter =
      let header := found.map fun (a, doc) => infoOf a doc
      let rows := Rows.merge (found.map (·.2.records))
      match filter with
      | none => ⟨header, rows⟩
      | some f => ⟨header, rows.filter fun r => f.accepts (r.forFilter header)⟩ := by
  cases filter with
  | none => rw [Filter.reach, Rows.ofTables_none, headerOf_tables, contents_tables root h]
  | some f =>
    rw [Filter.reach, Rows.ofTables_narrowed (narrowed_tables root f.ranges found),
      headerOf_tables, contents_tables root h]

end Tables

/-- **The rows that an engine shows** are those of the catalog. -/
theorem outcome_project (he : e.Manages root) (hs : IsScheme used) (hshows : s.Shows used root c)
    (hunit : Fits unit) {paths : List String} (hpaths : PlainPathsIn used unit paths)
    (tags : Option TagFilter) (filter : Option Filter) :
    ∃ s', outcome (e.project paths tags filter unit false) s =
      (.ok (c.project paths tags filter unit), s') ∧ s'.Shows used root c := by
  have hroot := hshows.fits_root
  have hopen := hshows.outcome_requireOpen
  rw [Engine.project, outcome_bind, hopen]
  simp only [Bool.false_eq_true, if_false]
  by_cases hranges : (Filter.reach filter).isEmpty = true
  -- A filter that reaches no key is answered without a look at the files.
  · rw [if_pos hranges, Catalog.project, if_pos hranges]
    exact ⟨s, rfl, hshows⟩
  · rw [if_neg hranges, Catalog.project, if_neg hranges]
    obtain ⟨as, hresolve, has, hsorted⟩ := outcome_resolve he hs
      (hshows.withLocks (s.locks.acquire (.readUnit unit))) hunit .project hpaths
    simp only [outcome_bind, outcome_known, managedRoot, he.managed, unitDir_ofPlace hroot hunit,
      outcome_guarded, hresolve]
    rw [outcome_readAll he hs (hshows.withLocks _) tags _ fun a ha => has.isUsed ha,
      seriesAt_eq has hsorted]
    simp only [outcome_pure]
    rw [ofTables_tables root _ filter]
    · exact ⟨_, rfl, hshows.withLocks _⟩
    · rintro ⟨a, doc⟩ hx
      exact hshows.mirrors.isStorable (OrderedMap.mem_toList_iff.mp (List.mem_filter.mp hx).1)

/-! ### Series -/

/-- What is said of the series of addresses. -/
theorem outcome_describeAll (he : e.Manages root) (hs : IsScheme used)
    (hshows : s.Shows used root c) {as : List (Address × Document)}
    (has : ∀ x ∈ as, c.get? x.1 = some x.2 ∧ Catalog.inUnit unit x.1 = true) :
    outcome (e.describeAll (ofPlace (root ++ [unit])) (as.map fun x => ofPlace (root ++ x.1))) s =
      (.ok (as.map fun x => ⟨infoOf x.1 x.2, false⟩), s) := by
  obtain ⟨chunkSize, hstore⟩ := he.store
  induction as with
  | nil => rfl
  | cons x rest ih =>
    obtain ⟨⟨hdoc, hin⟩, hrest⟩ := List.forall_mem_cons.mp has
    have hused := hshows.mirrors.isUsed hdoc
    have hpath : Location.seriesPath? (ofPlace (root ++ [unit])) (ofPlace (root ++ x.1)) =
        some (pathOf x.1.tail) := by
      have haddress := hs.isAddress hused
      have hfits := hshows.mirrors.fits haddress.fits
      rw [eq_cons_of_inUnit hin] at haddress hfits ⊢
      have hassoc : root ++ unit :: x.1.tail = root ++ [unit] ++ x.1.tail := by simp
      rw [hassoc] at hfits ⊢
      exact seriesPath?_ofPlace hfits haddress.segments.1
    have hdescribe : outcome (callFor .schema (e.store.describe (ofPlace (root ++ x.1)))) s =
        (.ok (some ⟨x.2.dataType, x.2.tags⟩), s) := by
      rw [outcome_callFor, hstore, DirectoryStore.outcome_describe _ _ hshows.storeIsOpen,
        DirectoryStore.describeOne, hshows.mirrors.load_eq hs hused, hdoc]
      rfl
    rw [List.map_cons, describeAll, hpath]
    simp only [outcome_bind, hdescribe, ih hrest, outcome_pure, List.map_cons, infoOf]

/-- **The series that an engine shows** are those of the catalog. -/
theorem outcome_schema (he : e.Manages root) (hs : IsScheme used) (hshows : s.Shows used root c)
    (hunit : Fits unit) :
    ∃ s', outcome (e.schema unit) s = (.ok (c.schema unit), s') ∧ s'.Shows used root c := by
  have hroot := hshows.fits_root
  have hopen := hshows.outcome_requireOpen
  have hlocked := hshows.withLocks (s.locks.acquire (.readUnit unit))
  have hkeys : ((unitKeys c unit).map fun a => ofPlace (root ++ a)) =
      (c.toList.filter fun (a, _) => Catalog.inUnit unit a).map fun x => ofPlace (root ++ x.1) := by
    rw [unitKeys, OrderedMap.keys, List.filter_map, List.map_map]
    rfl
  have hfound : ∀ x ∈ c.toList.filter fun (a, _) => Catalog.inUnit unit a,
      c.get? x.1 = some x.2 ∧ Catalog.inUnit unit x.1 = true := by
    intro x hx
    obtain ⟨hmem, hin⟩ := List.mem_filter.mp hx
    exact ⟨OrderedMap.mem_toList_iff.mp hmem, hin⟩
  rw [Engine.schema, he.managed, he.history]
  simp only [outcome_bind, hopen, outcome_known, unitDir_ofPlace hroot hunit, outcome_guarded,
    outcome_list he hs hlocked hunit, hkeys, outcome_describeAll he hs hlocked hfound, outcome_pure]
  exact ⟨_, rfl, hshows.withLocks _⟩

end Engine

end KeyedSeries

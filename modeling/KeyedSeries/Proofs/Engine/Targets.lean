import KeyedSeries.Proofs.Engine.Action
import KeyedSeries.Proofs.Store.Mirror

/-!
# Targets of a catalog

On a disk that mirrors a catalog, the files that an engine finds for paths are those
of addresses: of the paths that are no globs, and of the series that the globs match.
**A series is among them if and only if it is asked for**, and they go by ascending
address, each of them once (`KeyedSeries.Engine.outcome_resolve`).
-/

namespace KeyedSeries

open Disk FilePath

/-! ### Paths and segments -/

/-- A path without separators is its own segment. -/
theorem Location.segments_eq_singleton {path : String} (hne : path ≠ "")
    (h : Location.separator ∉ path.toList) : Location.segments path = [path] := by
  have hlist : path.toList ≠ [] := fun hnil => hne (String.toList_inj.mp hnil)
  rw [Location.segments, pieces_of_notMem h, List.filter_cons_of_pos (by simpa using hlist)]
  simp

namespace Catalog

/-- Segments are found again in the path that they make. -/
theorem segments_pathOf {segments : List String} (h : ∀ s ∈ segments, IsSegment s) :
    Location.segments (pathOf segments) = segments := by
  rw [Location.segments, pathOf, toList_intercalate_singleton]
  by_cases hnil : segments = []
  · rw [hnil]
    rfl
  · have hne : ∀ s ∈ segments, s.toList ≠ [] := fun s hs heq =>
      (h s hs).fits.ne_empty (String.toList_inj.mp heq)
    rw [pieces_joined (by simpa using hnil) (by
        simpa using fun s hs => (h s hs).noSeparator), List.filter_eq_self.mpr (by simpa using hne)]
    simp [Function.comp_def]

/-- Paths are the same only if their segments are. -/
theorem pathOf_inj {segments segments' : List String} (h : ∀ s ∈ segments, IsSegment s)
    (h' : ∀ s ∈ segments', IsSegment s) (heq : pathOf segments = pathOf segments') :
    segments = segments' := by
  rw [← segments_pathOf h, heq, segments_pathOf h']

/-- The file of an address, and its path. -/
def targetAt (root : Place) (a : Address) : Engine.Target := ⟨pathOf a.tail, ofPlace (root ++ a)⟩

end Catalog

theorem IsAddress.segments {unit : String} {segments : List String}
    (h : IsAddress (unit :: segments)) : segments ≠ [] ∧ ∀ s ∈ segments, IsSegment s := by
  obtain ⟨-, hsegments, -⟩ := h
  exact ⟨by simp, hsegments⟩

section Location

variable {base : Place}

theorem unitDir_ofPlace (hbase : ∀ n ∈ base, Fits n) {unit : String} (hunit : Fits unit) :
    Location.unitDir (ofPlace base) unit = .ok (ofPlace (base ++ [unit])) := by
  rw [Location.unitDir, if_pos hunit.isEntryName,
    child_ofPlace fun n hn => (hbase n hn).isEntryName]

/-- A path leads down by names that entries can have. -/
theorem descend_foldl_child {dir : FilePath} {names : List String}
    (h : ∀ n ∈ names, isEntryName n = true) :
    Location.descend dir names = .ok (names.foldl child dir) := by
  induction names generalizing dir with
  | nil => rfl
  | cons n rest ih =>
    obtain ⟨hn, hrest⟩ := List.forall_mem_cons.mp h
    rw [Location.descend, if_pos hn, ih hrest, List.foldl_cons]

/-- The file of the path that segments make is the one that they lead to. -/
theorem fileBelow_foldl_child {dir : FilePath} {segments : List String} (hne : segments ≠ [])
    (h : ∀ s ∈ segments, IsSegment s) :
    Location.fileBelow dir (Catalog.pathOf segments) = .ok (segments.foldl child dir) := by
  rw [Location.fileBelow, Catalog.segments_pathOf h]
  cases segments with
  | nil => exact absurd rfl hne
  | cons s rest => exact descend_foldl_child fun m hm => (h m hm).fits.isEntryName

/-- The file of the path that segments make. -/
theorem fileBelow_pathOf (hbase : ∀ n ∈ base, Fits n) {segments : List String}
    (hne : segments ≠ []) (h : ∀ s ∈ segments, IsSegment s) :
    Location.fileBelow (ofPlace base) (Catalog.pathOf segments) =
      .ok (ofPlace (base ++ segments)) := by
  have hfits : ∀ n ∈ base ++ segments, Fits n := by
    intro n hn
    rcases List.mem_append.mp hn with hn | hn
    · exact hbase n hn
    · exact (h n hn).fits
  rw [fileBelow_foldl_child hne h, foldl_child_ofPlace hfits]

/-- The path of a file is the one that its names below the base make. -/
theorem seriesPath?_of_below {base file : FilePath} {names : List String}
    (hbelow : base.below? file = some names) (hne : names ≠ []) (h : ∀ n ∈ names, isName n = true) :
    Location.seriesPath? base file = some (Catalog.pathOf names) := by
  rw [Location.seriesPath?, hbelow]
  cases names with
  | nil => exact absurd rfl hne
  | cons n rest =>
    simp only [List.all_eq_true.mpr h, if_true]
    rfl

theorem seriesPath?_ofPlace {names : List String} (h : ∀ n ∈ base ++ names, Fits n)
    (hne : names ≠ []) :
    Location.seriesPath? (ofPlace base) (ofPlace (base ++ names)) = some (Catalog.pathOf names) :=
  seriesPath?_of_below (below?_ofPlace fun n hn => (h n hn).isEntryName) hne fun n hn =>
    (h n (List.mem_append_right _ hn)).isName

end Location

/-! ### Files of paths -/

/-- How an engine is set up that manages the units below a root and nothing else. -/
structure Engine.Manages (e : Engine DirectoryStore) (root : Place) : Prop where
  /-- Its store is one in a directory tree. -/
  store : ∃ chunkSize, e.store = DirectoryStore.store chunkSize
  /-- The root is the managed one. -/
  managed : e.roots.managed = some (ofPlace root)
  /-- There is no history. -/
  history : e.roots.history = none
  /-- It may write. -/
  writable : e.readOnly = false

/-- Nothing was closed, and the disk mirrors a catalog. -/
structure EngineState.Shows (used : Address → Prop) (s : EngineState DirectoryStore) (root : Place)
    (c : Catalog) : Prop where
  /-- The engine is open. -/
  isOpen : s.closed = false
  /-- So is its store. -/
  storeIsOpen : s.store.closed = false
  /-- The disk mirrors the catalog. -/
  mirrors : Mirrors used s.store.disk root c

/-- The paths of a list that are no globs are those of addresses in use. -/
def PlainPathsIn (used : Address → Prop) (unit : String) (paths : List String) : Prop :=
  ∀ path ∈ paths, Glob.isGlob path = false →
    ∃ segments, used (unit :: segments) ∧ path = Catalog.pathOf segments

namespace Engine

open Catalog

variable {used : Address → Prop} {e : Engine DirectoryStore} {s : EngineState DirectoryStore}
  {root : Place} {c : Catalog} {unit : String}

/-- A series of a list of addresses is one that paths ask for. -/
structure AskedFor (used : Address → Prop) (c : Catalog) (unit : String) (paths : List String)
    (as : List Address) : Prop where
  /-- The addresses are in use. -/
  isUsed : ∀ {a}, a ∈ as → used a
  /-- They are in the unit. -/
  inUnit : ∀ {a}, a ∈ as → inUnit unit a = true
  /-- The series among them are those that the paths ask for. -/
  mem_iff : ∀ {a doc}, c.get? a = some doc → Catalog.inUnit unit a = true →
    (a ∈ as ↔ asksFor paths (pathOf a.tail) = true)

theorem eq_cons_of_inUnit {a : Address} (h : Catalog.inUnit unit a = true) :
    a = unit :: a.tail := by
  obtain ⟨rest, rfl⟩ := Mirrors.inUnit_iff.mp h
  rfl

/-- The files of a listing that a glob matches. -/
theorem globbed_ofPlace (hs : IsScheme used) (h : Mirrors used s.store.disk root c) (glob : String)
    {as : List Address} (has : ∀ a ∈ as, used a ∧ Catalog.inUnit unit a = true) :
    globbed (ofPlace (root ++ [unit])) glob (as.map fun a => ofPlace (root ++ a)) =
      (as.filter fun a => Glob.accepts glob (pathOf a.tail)).map (targetAt root) := by
  rw [globbed, List.filterMap_map, ← List.filterMap_eq_map, List.filterMap_filter]
  refine List.filterMap_congr fun a ha => ?_
  obtain ⟨hused, hin⟩ := has a ha
  have haddress := hs.isAddress hused
  have hfits := h.fits haddress.fits
  rw [eq_cons_of_inUnit hin] at haddress hfits ⊢
  have hassoc : root ++ unit :: a.tail = root ++ [unit] ++ a.tail := by simp
  rw [hassoc] at hfits
  rw [Function.comp_apply, hassoc, seriesPath?_ofPlace hfits haddress.segments.1]
  simp only [targetAt, Function.comp_apply, List.append_assoc, List.cons_append, List.nil_append,
    List.tail_cons]
  rfl

/-- The addresses of the series of a unit. -/
def unitKeys (c : Catalog) (unit : String) : List Address := c.keys.filter (Catalog.inUnit unit)

theorem mem_unitKeys {a : Address} :
    a ∈ unitKeys c unit ↔ (∃ doc, c.get? a = some doc) ∧ Catalog.inUnit unit a = true := by
  rw [unitKeys, List.mem_filter, OrderedMap.mem_keys_iff]

theorem outcome_list (he : e.Manages root) (hs : IsScheme used) (hshows : s.Shows used root c)
    (hunit : Fits unit) (task : Task) :
    outcome (callFor task (e.store.list (ofPlace (root ++ [unit])) true)) s =
      (.ok ((unitKeys c unit).map fun a => ofPlace (root ++ a)), s) := by
  obtain ⟨chunkSize, hstore⟩ := he.store
  rw [outcome_callFor, hstore, DirectoryStore.outcome_list _ _ _ hshows.storeIsOpen,
    hshows.mirrors.listFiles_eq hs hunit]
  rfl

/-- No paths ask for no series. -/
theorem askedFor_nil (used : Address → Prop) (c : Catalog) (unit : String) :
    AskedFor used c unit [] [] := by
  refine ⟨by simp, by simp, fun _ _ => ?_⟩
  simp [asksFor]

/-- A glob asks for the series that it matches. -/
theorem AskedFor.cons_glob {d : Disk} (h : Mirrors used d root c) {path : String}
    {paths : List String} {as : List Address} (has : AskedFor used c unit paths as)
    (hglob : Glob.isGlob path = true) :
    AskedFor used c unit (path :: paths)
      ((unitKeys c unit).filter (fun a => Glob.accepts path (pathOf a.tail)) ++ as) where
  isUsed := by
    intro a ha
    rcases List.mem_append.mp ha with ha | ha
    · obtain ⟨⟨doc, hdoc⟩, -⟩ := mem_unitKeys.mp (List.mem_filter.mp ha).1
      exact h.isUsed hdoc
    · exact has.isUsed ha
  inUnit := by
    intro a ha
    rcases List.mem_append.mp ha with ha | ha
    · exact (mem_unitKeys.mp (List.mem_filter.mp ha).1).2
    · exact has.inUnit ha
  mem_iff := by
    intro a doc hdoc hin
    rw [List.mem_append, List.mem_filter, has.mem_iff hdoc hin]
    simp [mem_unitKeys, hdoc, hin, asksFor, hglob]

/-- A path that is no glob asks for the series at its own address. -/
theorem AskedFor.cons_plain {d : Disk} (h : Mirrors used d root c) (hs : IsScheme used)
    {segments paths : List String} {as : List Address} (has : AskedFor used c unit paths as)
    (hused : used (unit :: segments)) (hglob : ¬Glob.isGlob (pathOf segments) = true) :
    AskedFor used c unit (pathOf segments :: paths) ((unit :: segments) :: as) where
  isUsed := by
    intro a ha
    rcases List.mem_cons.mp ha with rfl | ha
    · exact hused
    · exact has.isUsed ha
  inUnit := by
    intro a ha
    rcases List.mem_cons.mp ha with rfl | ha
    · simp [Catalog.inUnit]
    · exact has.inUnit ha
  mem_iff := by
    intro a doc hdoc hin
    have haddress := (hs.isAddress hused).segments.2
    have hother := hs.isAddress (h.isUsed hdoc)
    rw [eq_cons_of_inUnit hin] at hother
    have hsame : a = unit :: segments ↔ pathOf segments = pathOf a.tail := by
      constructor
      · rintro rfl
        rfl
      · intro hpath
        rw [eq_cons_of_inUnit hin, pathOf_inj haddress hother.segments.2 hpath]
    rw [List.mem_cons, has.mem_iff hdoc hin, hsame]
    simp [asksFor, hglob]

/-- The targets of paths, in the order of the paths. -/
theorem outcome_targetsOf (he : e.Manages root) (hs : IsScheme used) (hshows : s.Shows used root c)
    (hunit : Fits unit) (task : Task) {paths : List String} (hpaths : PlainPathsIn used unit paths)
    (listing : Option (List FilePath)) (hlisting : ∀ files, listing = some files →
      files = (unitKeys c unit).map fun a => ofPlace (root ++ a)) :
    ∃ as, outcome (e.targetsOf task (ofPlace (root ++ [unit])) listing paths) s =
        (.ok (as.map (targetAt root)), s) ∧ AskedFor used c unit paths as := by
  induction paths generalizing listing with
  | nil => exact ⟨[], rfl, askedFor_nil used c unit⟩
  | cons path rest ih =>
    have hrest : PlainPathsIn used unit rest := fun p hp => hpaths p (List.mem_cons_of_mem _ hp)
    by_cases hglob : Glob.isGlob path = true
    · obtain ⟨as, hrun, has⟩ := ih hrest (some ((unitKeys c unit).map fun a => ofPlace (root ++ a)))
        fun _ h => (Option.some.inj h).symm
      have hfound : ∀ a ∈ unitKeys c unit, used a ∧ Catalog.inUnit unit a = true := by
        intro a ha
        obtain ⟨⟨doc, hdoc⟩, hin⟩ := mem_unitKeys.mp ha
        exact ⟨hshows.mirrors.isUsed hdoc, hin⟩
      refine ⟨_, ?_, has.cons_glob hshows.mirrors hglob⟩
      -- The files are listed, or they were before.
      rw [targetsOf, if_pos hglob]
      cases listing with
      | none =>
        simp only [outcome_bind, outcome_list he hs hshows hunit task, hrun, outcome_pure,
          globbed_ofPlace hs hshows.mirrors path hfound, List.map_append]
      | some files =>
        rw [hlisting files rfl]
        simp only [outcome_bind, hrun, outcome_pure,
          globbed_ofPlace hs hshows.mirrors path hfound, List.map_append]
    · obtain ⟨as, hrun, has⟩ := ih hrest listing hlisting
      obtain ⟨segments, hused, rfl⟩ := hpaths path List.mem_cons_self (by simpa using hglob)
      have haddress := hs.isAddress hused
      have hassoc : root ++ unit :: segments = root ++ [unit] ++ segments := by simp
      have hbase : ∀ n ∈ root ++ [unit], Fits n := hshows.mirrors.fits (by simpa using hunit)
      refine ⟨_, ?_, has.cons_plain hshows.mirrors hs hused hglob⟩
      rw [targetsOf, if_neg hglob, outcome_bind, outcome_known,
        fileBelow_pathOf hbase haddress.segments.1 haddress.segments.2]
      simp only [outcome_bind, hrun, outcome_pure, List.map_cons, targetAt, hassoc, List.tail_cons]

/-! ### Each file once -/

/-- Addresses in ascending order, each of them once. -/
def sortedAddresses (as : List Address) : List Address := (OrderedMap.ofList (as.map (·, ()))).keys

theorem mem_sortedAddresses {as : List Address} {a : Address} :
    a ∈ sortedAddresses as ↔ a ∈ as := by
  rw [sortedAddresses, OrderedMap.mem_keys_iff]
  constructor
  · rintro ⟨u, hu⟩
    obtain ⟨b, hb, heq⟩ := List.mem_map.mp (OrderedMap.mem_of_get?_ofList hu)
    cases heq
    exact hb
  · intro ha
    refine Option.isSome_iff_exists.mp (OrderedMap.get?_ofList_isSome ?_)
    rw [List.map_map]
    exact List.mem_map.mpr ⟨a, ha, rfl⟩

/-- The targets by file with one more, unless there is one of its file. -/
def keepFirst (m : OrderedMap (List String) Target) (t : Target) :
    OrderedMap (List String) Target :=
  m.alter t.file.components fun
    | some first => some first
    | none => some t

theorem distinct_eq_foldl (targets : List Target) :
    distinct targets = (targets.foldl keepFirst .empty).values := rfl

/-- Under the file of an address there is the target of the address. -/
theorem get?_foldl_keepFirst {as : List Address} (h : ∀ a ∈ as, ∀ n ∈ root ++ a, Fits n)
    {k : List String} {t : Target} :
    ((as.map (targetAt root)).foldl keepFirst .empty).get? k = some t ↔
      ∃ a ∈ as, k = rootName :: (root ++ a) ∧ t = targetAt root a := by
  induction as using List.reverseRecOn generalizing t with
  | nil => simp
  | append_singleton as a ih =>
    have has : ∀ a ∈ as, ∀ n ∈ root ++ a, Fits n := fun b hb => h b (List.mem_append_left _ hb)
    have hkey : (targetAt root a).file.components = rootName :: (root ++ a) :=
      components_ofPlace fun n hn => (h a (by simp) n hn).isEntryName
    rw [List.map_append, List.foldl_append]
    show (keepFirst _ (targetAt root a)).get? k = some t ↔ _
    rw [keepFirst, OrderedMap.get?_alter, hkey]
    split
    · next heq =>
      -- Another target of this file would be that of the same address.
      have hinj : ∀ b : Address, k = rootName :: (root ++ b) → b = a := by
        intro b hb
        rw [heq] at hb
        simpa using hb.symm
      have htarget : (∃ b ∈ as ++ [a], k = rootName :: (root ++ b) ∧ t = targetAt root b) ↔
          targetAt root a = t := by
        constructor
        · rintro ⟨b, -, hb, rfl⟩
          rw [hinj b hb]
        · rintro rfl
          exact ⟨a, by simp, heq, rfl⟩
      rw [htarget]
      cases hfirst : ((as.map (targetAt root)).foldl keepFirst .empty).get? k with
      | none => rw [← heq, hfirst, Option.some.injEq]
      | some first =>
        obtain ⟨b, -, hb, rfl⟩ := (ih has).mp hfirst
        rw [← heq, hfirst, hinj b hb, Option.some.injEq]
    · next hne =>
      rw [ih has]
      constructor
      · rintro ⟨b, hb, hrest⟩
        exact ⟨b, List.mem_append_left _ hb, hrest⟩
      · rintro ⟨b, hb, hk, ht⟩
        rcases List.mem_append.mp hb with hb | hb
        · exact ⟨b, hb, hk, ht⟩
        · rw [List.mem_singleton.mp hb] at hk
          exact absurd hk hne

/-- The targets of addresses, each of them once, go by ascending address. -/
theorem distinct_targets {as : List Address} (h : ∀ a ∈ as, ∀ n ∈ root ++ a, Fits n) :
    distinct (as.map (targetAt root)) = (sortedAddresses as).map (targetAt root) := by
  have hentries : ((as.map (targetAt root)).foldl keepFirst .empty).toList =
      (sortedAddresses as).map fun a => (rootName :: (root ++ a), targetAt root a) := by
    refine OrderedMap.eq_of_mem_iff Prod.fst (OrderedMap.ascending _) ?_ fun ⟨k, t⟩ => ?_
    · refine List.pairwise_map.mpr ((OrderedMap.pairwise_keys _).imp fun {a b} hab => ?_)
      exact (compare_append_left (rootName :: root) a b).trans hab
    · rw [OrderedMap.mem_toList_iff, get?_foldl_keepFirst h, List.mem_map]
      simp only [mem_sortedAddresses, Prod.mk.injEq, eq_comm]
  rw [distinct_eq_foldl]
  show (OrderedMap.toList _).map (·.2) = _
  rw [hentries, List.map_map]
  rfl

/-- **The targets of paths** are those of addresses: a series is among them if it is
asked for, and they go by ascending address, each of them once. -/
theorem outcome_resolve (he : e.Manages root) (hs : IsScheme used) (hshows : s.Shows used root c)
    (hunit : Fits unit) (task : Task) {paths : List String}
    (hpaths : PlainPathsIn used unit paths) :
    ∃ as, outcome (e.resolve task (ofPlace (root ++ [unit])) paths) s =
        (.ok (as.map (targetAt root)), s) ∧ AskedFor used c unit paths as ∧
      as.Pairwise fun a b => compare a b = .lt := by
  obtain ⟨as, hrun, has⟩ := outcome_targetsOf he hs hshows hunit task hpaths none nofun
  refine ⟨sortedAddresses as, ?_, ?_, OrderedMap.pairwise_keys _⟩
  · rw [resolve, outcome_bind, hrun]
    simp only [outcome_pure]
    rw [distinct_targets fun a ha => hshows.mirrors.fits (hs.isAddress (has.isUsed ha)).fits]
  · refine ⟨fun ha => has.isUsed (mem_sortedAddresses.mp ha),
      fun ha => has.inUnit (mem_sortedAddresses.mp ha), fun hdoc hin => ?_⟩
    rw [mem_sortedAddresses, has.mem_iff hdoc hin]

end Engine

end KeyedSeries

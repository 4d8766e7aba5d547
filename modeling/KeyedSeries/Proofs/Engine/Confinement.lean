import KeyedSeries.Proofs.Config.Roots
import KeyedSeries.Proofs.Engine.Stored
import KeyedSeries.Proofs.Store.Faults

/-!
# Writes stay inside their unit

What an engine may change on the disk depends on the operation, and not on what comes of
it: the store may fail at any call (`KeyedSeries.Store.MayFail`), and what was done before
stays done. An insertion into a unit and a removal from it change **nothing outside of the
directory of the unit** below the managed root, whatever the unit, the paths, the patterns
and the cells (`KeyedSeries.Operation.confined_after`), and all other operations change
nothing. An engine that is closed or may not write changes nothing at all
(`KeyedSeries.Operation.frame_of_openedBy`).
-/

namespace KeyedSeries

open Disk FilePath

/-- How an engine comes to be: the roots of a configuration are resolved on a disk. -/
structure Engine.OpenedBy {σ : Type} (e : Engine σ) (config : Config) (d d' : Disk) : Prop where
  /-- The roots are those that were resolved. -/
  resolve : config.resolve d = (.ok e.roots, d')
  /-- It may write if the configuration says so. -/
  readOnly : e.readOnly = config.readOnly

namespace Engine.OpenedBy

variable {σ : Type} {e : Engine σ} {config : Config} {d d' : Disk}

/-- Opening adds directories. -/
theorem grown (h : e.OpenedBy config d d') (ht : d.IsPlainTree) : Grown (fun _ => True) d d' := by
  have hgrown := Config.grown_resolve ht.isLinkedTree config
  rwa [h.resolve] at hgrown

/-- The managed root of an engine that may write is the path of a directory. -/
theorem managed (h : e.OpenedBy config d d') (ht : d.IsPlainTree) (hwritable : e.readOnly = false) :
    ∃ root, e.roots.managed = some (ofPlace root) ∧ (∀ n ∈ root, isEntryName n = true) ∧
      d'.entry? root = some .dir := by
  obtain ⟨root, hmanaged, hdir⟩ :=
    Config.managed_of_resolve ht.isLinkedTree h.resolve (h.readOnly.symm.trans hwritable)
  exact ⟨root, hmanaged, fun n hn => ((h.grown ht).isLinkedTree.fits hdir n hn).isEntryName, hdir⟩

end Engine.OpenedBy

/-- An operation of an engine, with its arguments. -/
inductive Operation where
  /-- Reads rows of a unit, or of the history. -/
  | project (paths : List String) (tags : Option TagFilter) (filter : Option Filter)
    (unit : String) (isHistory : Bool)
  /-- Stores a data view. -/
  | insert (view : DataView) (unit : String)
  /-- Removes series of a unit, or some of their records. -/
  | delete (paths : List String) (ranges : List KeyRange) (tags : Option TagFilter) (unit : String)
  /-- Lists the series of a unit, and those of the history. -/
  | schema (unit : String)
  /-- Finds what the engine covers. -/
  | bounds (start : Option String)
  /-- Ends the work. -/
  | close

namespace Operation

variable {σ : Type}

/-- The state that an operation leaves, whatever comes of it. -/
def after (e : Engine σ) (s : EngineState σ) : Operation → EngineState σ
  | project paths tags filter unit isHistory =>
    (outcome (e.project paths tags filter unit isHistory) s).2
  | insert view unit => (outcome (e.insert view unit) s).2
  | delete paths ranges tags unit => (outcome (e.delete paths ranges tags unit) s).2
  | schema unit => (outcome (e.schema unit) s).2
  | bounds start => (outcome (e.bounds start) s).2
  | close => (outcome e.close s).2

/-- The unit that an operation may change. -/
def writesTo : Operation → Option String
  | insert _ unit | delete _ _ _ unit => some unit
  | project .. | schema _ | bounds _ | close => none

variable {e : Engine σ} {s : EngineState σ} {op : Operation} {view : σ → DirectoryStore}
  {chunkSize : Nat} {root : Place} {unit : String}

/-! ### Operations that change nothing -/

/-- **Operations that do not write** leave the disk as it is. -/
theorem disk_after_of_read (h : e.store.MayFail view chunkSize) (hop : op.writesTo = none) :
    (view (op.after e s).store).disk = (view s.store).disk := by
  have hreads := h.reads (· = (view s.store).disk)
  cases op with
  | project paths tags filter unit isHistory =>
    exact (Engine.keeps_project hreads paths tags filter unit isHistory s rfl).1
  | insert | delete => cases hop
  | schema unit => exact (Engine.keeps_schema hreads unit s rfl).1
  | bounds start => exact (Engine.keeps_bounds hreads start s rfl).1
  | close => exact (Engine.keeps_close (h.keeps_close (· = (view s.store).disk)) s rfl).1

/-- **A closed engine** does nothing. -/
theorem after_of_closed (hclosed : s.closed = true) : op.after e s = s := by
  have hopen : outcome Engine.requireOpen s = (.error .closed, s) := by
    rw [Engine.outcome_requireOpen, hclosed]
    rfl
  cases op with
  | project => rw [after, Engine.project, outcome_bind, hopen]
  | insert => rw [after, Engine.insert, outcome_bind, hopen]
  | delete => rw [after, Engine.delete, outcome_bind, hopen]
  | schema => rw [after, Engine.schema, outcome_bind, hopen]
  | bounds => rw [after, Engine.bounds, outcome_bind, hopen]
  | close =>
    rw [after, Engine.close, outcome_bind, outcome_get]
    simp only [hclosed, if_true, outcome_pure]

/-- **An engine that may not write** changes nothing on the disk. -/
theorem disk_after_of_readOnly (h : e.store.MayFail view chunkSize)
    (hreadOnly : e.readOnly = true) :
    (view (op.after e s).store).disk = (view s.store).disk := by
  have hroot : e.writableRoot = .error (.argument .readOnly) := by
    rw [Engine.writableRoot, if_pos hreadOnly]
  cases hop : op.writesTo with
  | none => exact disk_after_of_read h hop
  | some unit =>
    -- A write comes as far as to the question whether it may write.
    have hstart : ∀ {α : Type} (rest : FilePath → Engine.Work σ α),
        (outcome (Engine.requireOpen >>= fun _ => Engine.known e.writableRoot >>= rest) s).2 =
          s := by
      intro α rest
      rw [outcome_bind, Engine.outcome_requireOpen]
      cases s.closed with
      | true => rfl
      | false =>
        simp only [Bool.false_eq_true, if_false, outcome_bind, Engine.outcome_known, hroot]
    cases op with
    | insert view unit => rw [after, Engine.insert, hstart]
    | delete paths ranges tags unit => rw [after, Engine.delete, hstart]
    | project | schema | bounds | close => cases hop

/-! ### Operations that write -/

theorem isBelow_of_names {base names : List String} (hne : names ≠ [])
    (h : ∀ n ∈ base ++ names, isEntryName n = true) :
    DirectoryStore.IsBelow base (ofPlace (base ++ names)) := by
  obtain ⟨front, last, rfl⟩ := (List.eq_nil_or_concat' names).resolve_left hne
  rw [← List.append_assoc] at h ⊢
  exact ⟨base ++ front, last, List.prefix_append base front, h, rfl⟩

/-- A path that is no glob leads below the directory. -/
theorem isBelow_of_fileBelow {base : Place} (hbase : ∀ n ∈ base, isEntryName n = true)
    {path : String} {file : FilePath} (h : Location.fileBelow (ofPlace base) path = .ok file) :
    DirectoryStore.IsBelow base file := by
  obtain ⟨hne, hnames, rfl⟩ := (Location.fileBelow_eq_ok_iff hbase).mp h
  exact isBelow_of_names hne (List.forall_mem_append.mpr ⟨hbase, hnames⟩)

/-- The file of a series is below the directory of its unit. -/
theorem isBelow_of_file {path : String} {file : FilePath} (hroot : ∀ n ∈ root, isEntryName n = true)
    (h : Location.file (ofPlace root) unit path = .ok file) :
    DirectoryStore.IsBelow (root ++ [unit]) (ofPlace (Location.placeOf root unit path)) := by
  obtain ⟨-, hne, -⟩ := (Location.file_eq_ok_iff hroot).mp h
  have hplace := (Location.isFilePlace_placeOf hroot h).isEntryName
  have hassoc : Location.placeOf root unit path = root ++ [unit] ++ Location.segments path := by
    simp [Location.placeOf]
  rw [hassoc] at hplace ⊢
  exact isBelow_of_names hne hplace

/-- **What an operation on a unit keeps**, whatever comes of it: all that is kept of the disk when
the files of its columns are written, when the directory of the unit is erased, and when series
below it are removed or trimmed. -/
theorem keeps_after {J : Disk → Prop} (h : e.store.MayFail view chunkSize)
    (he : e.roots.managed = some (ofPlace root)) (hop : op.writesTo = some unit)
    (hplain : ∀ d, J d → d.IsPlainTree) (hroot : ∀ n ∈ root, isEntryName n = true)
    (hstart : J (view s.store).disk)
    (hwrite : ∀ dataView, op = .insert dataView unit →
      (∀ series ∈ dataView.columns,
          ∃ file, Location.file (ofPlace root) unit series.path = .ok file) →
        ∀ records tagSets d, J d → J (DirectoryStore.writeAll (dataView.columns.map fun series =>
          ofPlace (Location.placeOf root unit series.path)) records tagSets d).2)
    (herase : (∀ n ∈ root ++ [unit], isEntryName n = true) →
      ∀ d, J d → J (DirectoryStore.erase d (ofPlace (root ++ [unit]))).2)
    (hremove : ∀ file, DirectoryStore.IsBelow (root ++ [unit]) file → ∀ tags d, J d →
      J (DirectoryStore.removeOne d tags file).2)
    (htrim : ∀ file, DirectoryStore.IsBelow (root ++ [unit]) file → ∀ tags range d, J d →
      J (DirectoryStore.trimOne d tags range file).2) :
    J (view (op.after e s).store).disk := by
  cases op with
  | project | schema | bounds | close => cases hop
  | insert dataView unit =>
    cases hop
    refine (Engine.keeps_insert (J := fun s => J (view s).disk)
      (fun path files hpath hfiles => ?_) s hstart).1
    obtain rfl := Engine.writableRoot_eq_ok he hpath
    obtain ⟨rfl, hall⟩ := Engine.filesOf_eq_ok hroot hfiles
    exact h.keeps_write (hwrite dataView rfl hall _ _)
  | delete paths ranges tags unit =>
    cases hop
    have hbase : ∀ path base, e.writableRoot = .ok path → Location.unitDir path unit = .ok base →
        base = ofPlace (root ++ [unit]) ∧ ∀ n ∈ root ++ [unit], isEntryName n = true := by
      intro path base hpath hbase
      obtain rfl := Engine.writableRoot_eq_ok he hpath
      obtain ⟨hunit, rfl⟩ := (Location.unitDir_eq_ok_iff hroot).mp hbase
      exact ⟨rfl, List.forall_mem_append.mpr ⟨hroot, List.forall_mem_singleton.mpr hunit⟩⟩
    -- The files that are found are below the directory of the unit.
    refine (Engine.keeps_delete (J := fun s => J (view s).disk)
      (P := fun _ file => DirectoryStore.IsBelow (root ++ [unit]) file)
      (fun path base hpath hdir => ?_) (fun path base hpath hdir => ?_)
      (fun path base asked file hpath hdir hfile => ?_)
      (fun path base file _ _ hfile => ⟨?_, fun range => ?_⟩) s hstart).1
    · obtain ⟨rfl, hunit⟩ := hbase path base hpath hdir
      exact h.keeps_remove (herase hunit)
    · obtain ⟨rfl, hunit⟩ := hbase path base hpath hdir
      refine h.keeps_list fun d hd file hfile => ?_
      obtain ⟨names, hne, -, hthere, rfl⟩ :=
        (DirectoryStore.mem_listFiles (hplain d hd) hunit).mp hfile
      exact isBelow_of_names hne fun n hn =>
        ((hplain d hd).fits_of_isSome_fileAt? hthere n hn).isEntryName
    · obtain ⟨rfl, hunit⟩ := hbase path base hpath hdir
      exact isBelow_of_fileBelow hunit hfile
    · refine h.keeps_removeSeries fun d hd => ?_
      rw [DirectoryStore.forAll_singleton]
      exact hremove file hfile tags d hd
    · refine h.keeps_trim fun d hd => ?_
      rw [DirectoryStore.forAll_singleton]
      exact htrim file hfile tags range d hd

/-- **An operation that writes to a unit** changes nothing outside of the directory of the
unit, whatever comes of it. -/
theorem confined_after (h : e.store.MayFail view chunkSize)
    (he : e.roots.managed = some (ofPlace root)) (ht : (view s.store).disk.IsPlainTree)
    (hroot : Disk.entry? (view s.store).disk root = some .dir) (hop : op.writesTo = some unit) :
    Confined (root ++ [unit]) (view s.store).disk (view (op.after e s).store).disk := by
  have hnames : ∀ n ∈ root, isEntryName n = true := fun n hn => (ht.fits hroot n hn).isEntryName
  -- Whatever was changed there before, the root is still a directory.
  refine keeps_after (J := fun d => Confined (root ++ [unit]) (view s.store).disk d) h he hop
    (fun d hd => hd.isPlainTree) hnames (.refl ht) (fun dataView _ hall records tagSets d hd => ?_)
    (fun hunit d hd => ?_) (fun file hfile tags d hd => ?_) (fun file hfile tags range d hd => ?_)
  · refine hd.trans (DirectoryStore.confined_writeAll hd.isPlainTree (hd.dir_around hroot)
      (fun file hfile => ?_) _ _)
    obtain ⟨series, hseries, rfl⟩ := List.mem_map.mp hfile
    obtain ⟨file, hfile⟩ := hall series hseries
    exact isBelow_of_file hnames hfile
  · exact hd.trans (DirectoryStore.confined_erase hd.isPlainTree hunit)
  · exact hd.trans (DirectoryStore.confined_removeOne hd.isPlainTree hfile tags)
  · exact hd.trans (DirectoryStore.confined_trimOne hd.isPlainTree (hd.dir_around hroot) hfile tags
      range)

/-- **Writes stay inside their unit.** The engine was opened on a tree without links, and
its store may fail at any call. Whatever an operation is called with and whatever comes of
it: if it does not write, or if the engine is closed or may not write, the disk stays as it
is; and if it writes to a unit, only the directory of the unit and what is below it may
change. -/
theorem frame_of_openedBy {config : Config} {d₀ d₁ : Disk} (hopened : e.OpenedBy config d₀ d₁)
    (htree₀ : d₀.IsPlainTree) (hstore : e.store.MayFail view chunkSize)
    (htree : (view s.store).disk.IsPlainTree) (op : Operation) :
    let d := (view s.store).disk
    let d' := (view (op.after e s).store).disk
    (op.writesTo = none → d' = d) ∧ (config.readOnly = true ∨ s.closed = true → d' = d) ∧
      ∀ unit path root, op.writesTo = some unit → e.roots.managed = some path →
        d.dirPlace? path = some root → ∀ q, ¬root ++ [unit] <+: q → d'.entry? q = d.entry? q := by
  intro d d'
  refine ⟨disk_after_of_read hstore, ?_, fun unit path root hop hpath hplace q hq => ?_⟩
  · rintro (hreadOnly | hclosed)
    · exact disk_after_of_readOnly hstore (hopened.readOnly.trans hreadOnly)
    · show (view (op.after e s).store).disk = _
      rw [after_of_closed hclosed]
  · cases hreadOnly : e.readOnly with
    | true =>
      have hsame : d' = d := disk_after_of_readOnly hstore hreadOnly
      rw [hsame]
    | false =>
      -- The managed root is the path of its place.
      obtain ⟨m, hmanaged, hnames, -⟩ := hopened.managed htree₀ hreadOnly
      obtain rfl : ofPlace m = path := Option.some.inj (hmanaged.symm.trans hpath)
      obtain ⟨rfl, hentry⟩ := dirPlace?_eq_some htree hnames hplace
      exact (confined_after hstore hpath htree hentry hop).frame q hq

/-! ### A removal that fails halfway -/

/-- A disk with two units. -/
def twoUnits : Disk :=
  ⟨.ofList [(["d"], .dir), (["d", "u"], .dir), (["d", "u", "a"], .file [1]),
    (["d", "u", "b"], .file [2]), (["d", "v"], .dir), (["d", "v", "b"], .file [3])]⟩

/-- An engine of the directory `/d` whose store may fail. -/
def faultyEngine : Engine (Faulty DirectoryStore) :=
  ⟨⟨some ⟨"/d"⟩, none⟩, false, (DirectoryStore.store 1).withFaults⟩

/-- The units, with a store that is going to fail at the first file. -/
def beforeFault : EngineState (Faulty DirectoryStore) :=
  { store := { state := { disk := twoUnits }, faults := [some (.io .other)] } }

/-- A removal of two series fails at the first one and takes the second one away. Outside of
their unit everything is as it was. -/
theorem frame_of_openedBy_twoUnits :
    let op : Operation := .delete ["a", "b"] [] none "u"
    let d' := (op.after faultyEngine beforeFault).store.state.disk
    faultyEngine.OpenedBy { dir := some ⟨"/d"⟩ } twoUnits twoUnits ∧ twoUnits.IsPlainTree ∧
      d'.entry? ["d", "u", "a"] = some (.file [1]) ∧ d'.entry? ["d", "u", "b"] = none ∧
      ∀ q, ¬["d", "u"] <+: q → d'.entry? q = twoUnits.entry? q := by
  intro op d'
  have hopened : faultyEngine.OpenedBy { dir := some ⟨"/d"⟩ } twoUnits twoUnits :=
    ⟨by decide +kernel, rfl⟩
  have htree : twoUnits.IsPlainTree := by decide +kernel
  have hplace : twoUnits.dirPlace? ⟨"/d"⟩ = some ["d"] := by decide +kernel
  have hframe := (frame_of_openedBy hopened htree (DirectoryStore.mayFail_withFaults 1)
    (s := beforeFault) htree op).2.2 "u" ⟨"/d"⟩ ["d"] rfl rfl hplace
  exact ⟨hopened, htree, by decide +kernel, by decide +kernel, hframe⟩

end Operation

end KeyedSeries

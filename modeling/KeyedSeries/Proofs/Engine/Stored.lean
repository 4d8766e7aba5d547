import KeyedSeries.Proofs.Engine.Answers
import KeyedSeries.Proofs.Store.Files

/-!
# Reading what was inserted

Here the tree below the root may hold anything but links: documents that were written
by others, files that are no documents, directories where a series is asked for. **An
insertion that succeeds** changes the files of its columns as documents take cells, and
no other ones apart from hidden ones (`KeyedSeries.Engine.files_of_insert`). What can be
read of it afterwards is said in `KeyedSeries.Engine.reads_of_insert`:

* a column with cells is shown, and its cells with it, if no value of its document is a
  number that is not finite (`KeyedSeries.Engine.project_of_insert`). A value of few
  digits is the one that was inserted; another one may have been rounded;
* the series of the unit are still shown if and only if this holds of all documents that
  were written (`KeyedSeries.Engine.isOk_schema_of_insert_iff`).

So one number that is not finite makes the series it was inserted into unreadable, and
with it the schema of its unit (`KeyedSeries.Engine.unreadable_of_insert_notANumber`).
-/

namespace KeyedSeries

open Disk FilePath

/-! ### Places of series -/

namespace Location

/-- The place of a series below a root. -/
def placeOf (root : Place) (unit path : String) : Place := root ++ unit :: segments path

/-- No segment is hidden. -/
theorem isHidden_of_mem_segments {path s : String} (h : s ∈ segments path) :
    DirectoryStore.isHidden s = false := by
  obtain ⟨p, hp, rfl⟩ := List.mem_map.mp h
  have hdot : separator ∉ p := notMem_of_mem_pieces (List.mem_filter.mp hp).1
  rw [DirectoryStore.isHidden, String.toList_ofList, beq_eq_false_iff_ne]
  intro hhead
  exact hdot (List.mem_of_mem_head? hhead)

variable {root : Place} {unit path : String} {file : FilePath}

/-- A path only leads down by names that entries can have. -/
theorem descend_eq_ok_iff {base names : List String} (hbase : ∀ n ∈ base, isEntryName n = true) :
    descend (ofPlace base) names = .ok file ↔
      (∀ n ∈ names, isEntryName n = true) ∧ file = ofPlace (base ++ names) := by
  induction names generalizing base with
  | nil =>
    rw [descend, List.append_nil, Except.ok.injEq, eq_comm]
    simp
  | cons n rest ih =>
    rw [descend]
    split
    · next hn =>
      rw [child_ofPlace hbase,
        ih (List.forall_mem_append.mpr ⟨hbase, List.forall_mem_singleton.mpr hn⟩)]
      simp [hn]
    · next hn => simp [hn]

/-- The directory of a unit is that of its place. -/
theorem unitDir_eq_ok_iff (hroot : ∀ n ∈ root, isEntryName n = true) :
    unitDir (ofPlace root) unit = .ok file ↔
      isEntryName unit = true ∧ file = ofPlace (root ++ [unit]) := by
  rw [unitDir, child_ofPlace hroot]
  split
  · next hunit => simp [hunit, eq_comm]
  · next hunit => simp [hunit]

/-- The file of a path below a place is that of its segments. -/
theorem fileBelow_eq_ok_iff (hroot : ∀ n ∈ root, isEntryName n = true) :
    fileBelow (ofPlace root) path = .ok file ↔
      segments path ≠ [] ∧ (∀ n ∈ segments path, isEntryName n = true) ∧
        file = ofPlace (root ++ segments path) := by
  rw [fileBelow]
  split
  · next hnil => simp [hnil]
  · next hne =>
    have hne : segments path ≠ [] := hne
    rw [descend_eq_ok_iff hroot, and_iff_right hne]

/-- **The file of a series** is that of its place, if there is one. -/
theorem file_eq_ok_iff (hroot : ∀ n ∈ root, isEntryName n = true) :
    Location.file (ofPlace root) unit path = .ok file ↔
      isEntryName unit = true ∧ segments path ≠ [] ∧
        (∀ n ∈ segments path, isEntryName n = true) ∧ file = ofPlace (placeOf root unit path) := by
  have hassoc : placeOf root unit path = root ++ [unit] ++ segments path := by simp [placeOf]
  rw [Location.file, hassoc]
  split
  · next base hbase =>
    obtain ⟨hunit, rfl⟩ := (unitDir_eq_ok_iff hroot).mp hbase
    have hnames : ∀ n ∈ root ++ [unit], isEntryName n = true :=
      List.forall_mem_append.mpr ⟨hroot, List.forall_mem_singleton.mpr hunit⟩
    rw [fileBelow_eq_ok_iff hnames, and_iff_right hunit]
  · next failure hfails =>
    refine iff_of_false (by simp) ?_
    rintro ⟨hunit, -⟩
    rw [(unitDir_eq_ok_iff hroot).mpr ⟨hunit, rfl⟩] at hfails
    cases hfails

/-- The last name below a unit is one of the names there. -/
theorem mem_of_getLast? {names : List String} (hne : names ≠ []) {n : String}
    (hn : n ∈ (root ++ unit :: names).getLast?) : n ∈ names := by
  rw [List.getLast?_append_of_ne_nil _ (List.cons_ne_nil _ _), List.getLast?_cons,
    List.getLast?_eq_some_getLast hne] at hn
  cases hn
  exact List.getLast_mem hne

/-- It is one where a file can be. -/
theorem isFilePlace_placeOf (hroot : ∀ n ∈ root, isEntryName n = true)
    (h : Location.file (ofPlace root) unit path = .ok file) :
    DirectoryStore.IsFilePlace (placeOf root unit path) := by
  obtain ⟨hunit, hne, hsegments, -⟩ := (file_eq_ok_iff hroot).mp h
  refine ⟨fun n hn => ?_, by simp [placeOf],
    fun n hn => isHidden_of_mem_segments (mem_of_getLast? hne hn)⟩
  rw [placeOf, List.mem_append, List.mem_cons] at hn
  rcases hn with hn | rfl | hn
  · exact hroot n hn
  · exact hunit
  · exact hsegments n hn

end Location

namespace Engine

open Location

variable {e : Engine DirectoryStore} {s s' : EngineState DirectoryStore} {root : Place}
  {unit : String}

/-- An engine over a directory tree without links. -/
structure WorksOn (e : Engine DirectoryStore) (s : EngineState DirectoryStore) (root : Place) :
    Prop where
  /-- Its store is one in a directory tree. -/
  store : ∃ chunkSize, e.store = DirectoryStore.store chunkSize
  /-- The root is the managed one. -/
  managed : e.roots.managed = some (ofPlace root)
  /-- Its names are such as entries can have. -/
  isEntryName : ∀ n ∈ root, FilePath.isEntryName n = true
  /-- There are no links. -/
  isPlainTree : s.store.disk.IsPlainTree

theorem WorksOn.isEntryName_unit (h : e.WorksOn s root)
    (hunit : FilePath.isEntryName unit = true) :
    ∀ n ∈ root ++ [unit], FilePath.isEntryName n = true :=
  List.forall_mem_append.mpr ⟨h.isEntryName, List.forall_mem_singleton.mpr hunit⟩

/-- The root that is written to is the managed one. -/
theorem writableRoot_eq_ok {σ : Type} {e : Engine σ} (he : e.roots.managed = some (ofPlace root))
    {path : FilePath} (h : e.writableRoot = .ok path) : path = ofPlace root := by
  rw [writableRoot] at h
  split at h
  · cases h
  · rw [managedRoot, he] at h
    exact (Except.ok.inj h).symm

/-! ### Insertions -/

/-- The files of columns are those of their places. -/
theorem filesOf_eq_ok (hroot : ∀ n ∈ root, FilePath.isEntryName n = true)
    {columns : List SeriesInfo} {files : List FilePath}
    (h : filesOf (ofPlace root) unit columns = .ok files) :
    files = columns.map (fun series => ofPlace (placeOf root unit series.path)) ∧
      ∀ series ∈ columns, ∃ file, Location.file (ofPlace root) unit series.path = .ok file := by
  induction columns generalizing files with
  | nil =>
    cases h
    exact ⟨rfl, nofun⟩
  | cons series rest ih =>
    rw [filesOf] at h
    split at h
    · cases h
    · next file hfile =>
      split at h
      · cases h
      · next files' hfiles =>
        cases h
        obtain ⟨hrest, hall⟩ := ih hfiles
        rw [List.map_cons, ← hrest, ((file_eq_ok_iff hroot).mp hfile).2.2.2]
        exact ⟨rfl, List.forall_mem_cons.mpr ⟨⟨file, hfile⟩, hall⟩⟩

/-- The columns of a view with their cells are written in turn. -/
theorem writeAll_cellColumns (view : DataView) (place : SeriesInfo → Place) (d : Disk) :
    DirectoryStore.writeAll (view.columns.map fun series => ofPlace (place series)) view.records
      (view.columns.map (·.tags)) d =
        DirectoryStore.forAll (DirectoryStore.writeColumn place) d view.cellColumns := by
  have hfiles : (view.columns.map fun series => ofPlace (place series)) =
      view.cellColumns.map fun column => ofPlace (place column.1) :=
    (view.map_cellColumns fun series => ofPlace (place series)).symm
  rw [hfiles, view.records_eq, ← view.map_cellColumns (·.tags), DirectoryStore.writeAll,
    if_neg (by simp), List.zip_map', List.zip_map', DirectoryStore.forAll_map]
  rfl

/-- **An insertion that succeeds** found the engine open, and wrote the columns of the
view. -/
theorem outcome_insert_eq_ok (h : e.WorksOn s root) {view : DataView}
    (hinsert : outcome (e.insert view unit) s = (.ok (), s')) :
    s.closed = false ∧ s.store.closed = false ∧ s'.closed = false ∧ s'.store.closed = false ∧
      (∀ series ∈ view.columns, ∃ file, Location.file (ofPlace root) unit series.path = .ok file) ∧
      DirectoryStore.forAll (DirectoryStore.writeColumn fun series => placeOf root unit series.path)
        s.store.disk view.cellColumns = (.ok (), s'.store.disk) := by
  obtain ⟨chunkSize, hstore⟩ := h.store
  rw [Engine.insert, DataView.encode_eq_records] at hinsert
  simp only [outcome_bind_eq_ok_iff, outcome_requireOpen_eq_ok_iff, outcome_known,
    outcome_guarded_eq_ok_iff, outcome_callFor_eq_ok_iff, hstore,
    DirectoryStore.outcome_write_eq_ok_iff, Prod.mk.injEq] at hinsert
  obtain ⟨-, _, ⟨hopen, rfl⟩, path, _, ⟨hpath, rfl⟩, files, _, ⟨hfiles, rfl⟩, _,
    ⟨_, ⟨hstoreOpen, d, hwrite, rfl⟩, rfl⟩, rfl⟩ := hinsert
  -- The files are those below the managed root.
  obtain rfl := writableRoot_eq_ok h.managed hpath
  obtain ⟨rfl, hall⟩ := filesOf_eq_ok h.isEntryName hfiles
  rw [writeAll_cellColumns] at hwrite
  exact ⟨hopen, hstoreOpen, hopen, hstoreOpen, hall, hwrite⟩

/-! ### Projections of one series -/

/-- A target alone is kept. -/
theorem distinct_singleton (t : Target) : distinct [t] = [t] := rfl

/-- The directory that the managed series of a unit, or those of the history, are in. -/
def IsBase (e : Engine DirectoryStore) (unit : String) (isHistory : Bool) (base : FilePath) :
    Prop :=
  if isHistory then e.roots.history = some base
  else ∃ root, e.roots.managed = some root ∧ Location.unitDir root unit = .ok base

/-- **A projection of one path** that is no glob shows what is read from its file, in a unit
as in the history. -/
theorem outcome_project_file {chunkSize : Nat} (hstore : e.store = DirectoryStore.store chunkSize)
    (hopen : s.closed = false) (hstoreOpen : s.store.closed = false) (isHistory : Bool)
    {base file : FilePath} {path : String} (hbase : e.IsBase unit isHistory base)
    (hglob : Glob.isGlob path = false) (hfile : Location.fileBelow base path = .ok file) :
    (outcome (e.project [path] none none unit isHistory) s).1 =
      ((if isHistory then
          DirectoryStore.readHistory s.store.disk (max chunkSize 1) file [KeyRange.full]
        else DirectoryStore.readSeries s.store.disk file none [KeyRange.full]).mapError
          (Failure.task .project)).map fun tables => Rows.ofTables (tables.map (path, ·)) none := by
  obtain ⟨read, hread⟩ : ∃ read, read = if isHistory then
      DirectoryStore.readHistory s.store.disk (max chunkSize 1) file [KeyRange.full]
    else DirectoryStore.readSeries s.store.disk file none [KeyRange.full] := ⟨_, rfl⟩
  have hrun : ∀ t : EngineState DirectoryStore, t.store = s.store →
      outcome (e.readAll none [KeyRange.full] isHistory [⟨path, file⟩]) t =
        ((read.mapError (Failure.task .project)).map fun tables => tables.map (path, ·), t) := by
    intro t ht
    have hcall :=
      DirectoryStore.outcome_read chunkSize file none [KeyRange.full] isHistory hstoreOpen
    rw [← hread, ← hstore, ← ht] at hcall
    simp only [readAll, outcome_bind, outcome_callFor, hcall, outcome_pure, List.append_nil]
    cases read <;> rfl
  have hresolve : ∀ t : EngineState DirectoryStore,
      outcome (e.resolve .project base [path]) t = (.ok [⟨path, file⟩], t) := by
    intro t
    simp only [resolve, targetsOf, hglob, Bool.false_eq_true, if_false, hfile, outcome_bind,
      outcome_known, outcome_pure, distinct_singleton]
  rw [← hread, project, outcome_bind, outcome_requireOpen, hopen]
  cases isHistory with
  | true =>
    have hroot : e.roots.history = some base := hbase
    simp only [Bool.false_eq_true, if_false, if_true, projectHistory, Option.isSome_none, hroot,
      Filter.reach, List.isEmpty_cons, outcome_bind, hresolve, outcome_pure]
    rw [hrun s rfl]
    cases read <;> rfl
  | false =>
    obtain ⟨root, hroot, hunit⟩ := hbase
    simp only [Bool.false_eq_true, if_false, Filter.reach, List.isEmpty_cons, outcome_bind,
      outcome_known, managedRoot, hroot, hunit, outcome_guarded, hresolve, hrun]
    cases read <;> rfl

/-- **A projection of one series of a unit** shows what is read from its file. -/
theorem outcome_project_plain (h : e.WorksOn s root) (hopen : s.closed = false)
    (hstoreOpen : s.store.closed = false) {path : String} {file : FilePath}
    (hglob : Glob.isGlob path = false) (hfile : Location.file (ofPlace root) unit path = .ok file) :
    (outcome (e.project [path] none none unit false) s).1 =
      ((DirectoryStore.readSeries s.store.disk file none [KeyRange.full]).mapError
        (Failure.task .project)).map fun tables => Rows.ofTables (tables.map (path, ·)) none := by
  obtain ⟨chunkSize, hstore⟩ := h.store
  rw [Location.file] at hfile
  split at hfile
  · next base hbase =>
    exact outcome_project_file hstore hopen hstoreOpen false ⟨_, h.managed, hbase⟩ hglob hfile
  · cases hfile

/-- A document that is read is shown. -/
theorem outcome_project_of_load (h : e.WorksOn s root) (hopen : s.closed = false)
    (hstoreOpen : s.store.closed = false) {path : String} {file : FilePath}
    (hglob : Glob.isGlob path = false) (hfile : Location.file (ofPlace root) unit path = .ok file)
    {doc : Document} (hload : DirectoryStore.load s.store.disk file = .ok (some doc)) :
    ∃ rows, (outcome (e.project [path] none none unit false) s).1 = .ok rows ∧
      rows.header = [⟨path, doc.dataType, doc.tags⟩] ∧
      ∀ k v, doc.records.get? k = some v → k < Key.top → ⟨k, [some v]⟩ ∈ rows.rows := by
  rw [outcome_project_plain h hopen hstoreOpen hglob hfile, DirectoryStore.readSeries, hload]
  refine ⟨_, rfl, rfl, fun k v hv hk => ?_⟩
  have hget : (doc.records.filter fun k _ => KeyRange.anyContains [KeyRange.full] k).get? k =
      some v := by
    rw [OrderedMap.get?_filter_keys, if_pos (KeyRange.anyContains_full.mpr hk), hv]
  have hrow := Rows.mem_merge (List.mem_singleton_self _) (OrderedMap.mem_keys_iff.mpr ⟨v, hget⟩)
  rw [List.map_singleton, hget] at hrow
  rw [← DirectoryStore.byKey_recordsIn file] at hrow
  exact hrow

/-! ### Series of a unit -/

/-- The series of files are described if every file that has a path can be. -/
theorem isOk_describeAll {chunkSize : Nat} (hstore : e.store = DirectoryStore.store chunkSize)
    (hstoreOpen : s.store.closed = false) {base : FilePath} {files : List FilePath} :
    (outcome (e.describeAll base files) s).1.isOk = true ↔ ∀ file ∈ files,
      (Location.seriesPath? base file).isSome = true →
        ∃ info, DirectoryStore.describeOne s.store.disk file = .ok (some info) := by
  induction files with
  | nil => exact iff_of_true rfl nofun
  | cons file rest ih =>
    rw [List.forall_mem_cons, describeAll, ← ih]
    cases hpath : Location.seriesPath? base file with
    | none => simp
    | some path =>
      simp only [outcome_bind, outcome_callFor, hstore,
        DirectoryStore.outcome_describe chunkSize file hstoreOpen]
      cases DirectoryStore.describeOne s.store.disk file with
      | error failure => exact iff_of_false Bool.false_ne_true (by simp)
      | ok info =>
        cases info with
        | none => exact iff_of_false Bool.false_ne_true (by simp)
        | some info =>
          simp only [Except.mapError, outcome_bind]
          rcases outcome (e.describeAll base rest) s with ⟨_ | entries, t⟩ <;>
            simp [Except.isOk, Except.toBool]

/-- To describe series changes nothing. -/
theorem snd_describeAll {chunkSize : Nat} (hstore : e.store = DirectoryStore.store chunkSize)
    (hstoreOpen : s.store.closed = false) (base : FilePath) (files : List FilePath) :
    (outcome (e.describeAll base files) s).2 = s := by
  induction files with
  | nil => rfl
  | cons file rest ih =>
    rw [describeAll]
    cases Location.seriesPath? base file with
    | none => exact ih
    | some path =>
      simp only [outcome_bind, outcome_callFor, hstore,
        DirectoryStore.outcome_describe chunkSize file hstoreOpen]
      rcases DirectoryStore.describeOne s.store.disk file with _ | _ | info
      · rfl
      · rfl
      · simp only [Except.mapError, outcome_bind]
        rcases hrest : outcome (e.describeAll base rest) s with ⟨_ | entries, t⟩ <;>
          simpa [hrest] using ih

/-- A file below a unit is described if it has a document. -/
theorem describeOne_eq_ok_some_iff {d : Disk} (ht : d.IsPlainTree) {q : Place}
    (hfile : (d.fileAt? q).isSome = true) :
    (∃ info, DirectoryStore.describeOne d (ofPlace q) = .ok (some info)) ↔
      (d.docAt? q).isSome = true := by
  obtain ⟨content, hcontent⟩ := Option.isSome_iff_exists.mp hfile
  rw [docAt?, hcontent, Option.bind_some, DirectoryStore.describeOne]
  cases hdoc : Document.ofBytes? content with
  | none => simp [DirectoryStore.load_of_unreadable ht.toIsTree hcontent hdoc]
  | some doc => simp [DirectoryStore.load_of_fileAt? ht.toIsTree hcontent hdoc]

/-- The files of a unit are described if every file that is listed has a document. -/
theorem isOk_describeAll_listFiles {chunkSize : Nat}
    (hstore : e.store = DirectoryStore.store chunkSize) (hstoreOpen : s.store.closed = false)
    (ht : s.store.disk.IsPlainTree) (hunit : ∀ n ∈ root ++ [unit], FilePath.isEntryName n = true) :
    (outcome (e.describeAll (ofPlace (root ++ [unit]))
      (DirectoryStore.listFiles s.store.disk (ofPlace (root ++ [unit])) true)) s).1.isOk = true ↔
        ∀ names, names ≠ [] → names.any DirectoryStore.isHidden = false →
          (s.store.disk.fileAt? (root ++ unit :: names)).isSome = true →
            (s.store.disk.docAt? (root ++ unit :: names)).isSome = true := by
  have hassoc : ∀ names, root ++ unit :: names = root ++ [unit] ++ names := by simp
  rw [isOk_describeAll hstore hstoreOpen]
  constructor
  · intro hall names hne hshown hfile
    rw [hassoc names] at hfile ⊢
    refine (describeOne_eq_ok_some_iff ht hfile).mp (hall _ ?_ ?_)
    · exact (DirectoryStore.mem_listFiles ht hunit).mpr ⟨names, hne, hshown, hfile, rfl⟩
    · rw [seriesPath?_ofPlace (ht.fits_of_isSome_fileAt? hfile) hne]
      rfl
  · intro hall file hmem _
    obtain ⟨names, hne, hshown, hfile, rfl⟩ := (DirectoryStore.mem_listFiles ht hunit).mp hmem
    have hdoc := hall names hne hshown
    rw [hassoc names] at hdoc
    exact (describeOne_eq_ok_some_iff ht hfile).mpr (hdoc hfile)

/-- **The series of a unit are shown** if every file that is listed has a document. -/
theorem isOk_schema_iff (h : e.WorksOn s root) (hopen : s.closed = false)
    (hstoreOpen : s.store.closed = false) : (outcome (e.schema unit) s).1.isOk = true ↔
      FilePath.isEntryName unit = true ∧
        ∀ names, names ≠ [] → names.any DirectoryStore.isHidden = false →
          (s.store.disk.fileAt? (root ++ unit :: names)).isSome = true →
            (s.store.disk.docAt? (root ++ unit :: names)).isSome = true := by
  obtain ⟨chunkSize, hstore⟩ := h.store
  rw [schema, h.managed]
  simp only [outcome_bind, outcome_requireOpen, hopen, Bool.false_eq_true, if_false, outcome_known,
    unitDir]
  by_cases hunit : FilePath.isEntryName unit = true
  · have hbase := h.isEntryName_unit hunit
    obtain ⟨locked, hlocked⟩ : ∃ locked : EngineState DirectoryStore,
        locked = { s with locks := s.locks.acquire (.readUnit unit) } := ⟨_, rfl⟩
    have hlockedStore : locked.store = s.store := by rw [hlocked]
    have hlockedOpen : locked.store.closed = false := by rw [hlockedStore, hstoreOpen]
    rw [if_pos hunit, child_ofPlace h.isEntryName, and_iff_right hunit, ← hlockedStore,
      ← isOk_describeAll_listFiles hstore hlockedOpen (hlockedStore ▸ h.isPlainTree) hbase]
    simp only [outcome_guarded, ← hlocked, outcome_bind, outcome_callFor, hstore,
      DirectoryStore.outcome_list chunkSize _ true hlockedOpen, Except.mapError]
    -- What is described leaves the store as it is, and so the history can be listed.
    have hsame := snd_describeAll hstore hlockedOpen (ofPlace (root ++ [unit]))
      (DirectoryStore.listFiles locked.store.disk (ofPlace (root ++ [unit])) true)
    rcases hdescribe : outcome (e.describeAll (ofPlace (root ++ [unit]))
      (DirectoryStore.listFiles locked.store.disk (ofPlace (root ++ [unit])) true)) locked with
      ⟨_ | entries, t⟩
    · exact iff_of_false Bool.false_ne_true Bool.false_ne_true
    · refine iff_of_true ?_ rfl
      obtain rfl : t = locked := by rw [← hsame, hdescribe]
      cases e.roots.history with
      | none => rfl
      | some root =>
        simp only [outcome_bind, outcome_callFor,
          DirectoryStore.outcome_list chunkSize root true hlockedOpen]
        rfl
  · rw [if_neg hunit]
    simp [hunit, Except.isOk, Except.toBool]

/-! ### What an insertion stores -/

/-- What becomes of the document of a column when the cells of the column are
inserted. -/
def updated? (d : Disk) (root : Place) (unit : String) (column : SeriesInfo × List (Key × Value)) :
    Option Document :=
  Document.upsert? (d.docAt? (placeOf root unit column.1.path)) column.1 column.2

section Insertion

variable {view : DataView}

/-- The places of the columns of a view that go to different files. -/
theorem isFilePlace_of_columns (h : e.WorksOn s root)
    (hfiles : ∀ series ∈ view.columns, ∃ file,
      Location.file (ofPlace root) unit series.path = .ok file)
    {column : SeriesInfo × List (Key × Value)} (hcolumn : column ∈ view.cellColumns) :
    DirectoryStore.IsFilePlace (placeOf root unit column.1.path) := by
  obtain ⟨file, hfile⟩ := hfiles column.1 (DataView.mem_columns hcolumn)
  exact isFilePlace_placeOf h.isEntryName hfile

theorem nodup_places (hdistinct : (view.columns.map fun series => segments series.path).Nodup) :
    (view.cellColumns.map fun column => placeOf root unit column.1.path).Nodup := by
  rw [view.map_cellColumns fun series => placeOf root unit series.path]
  have hmap : (view.columns.map fun series => placeOf root unit series.path) =
      (view.columns.map fun series => segments series.path).map fun names =>
        root ++ unit :: names := by
    rw [List.map_map]
    rfl
  rw [hmap]
  exact hdistinct.map fun a b hab => by simpa using hab

/-- **An insertion that succeeds** changes the files of the columns as documents take
cells, and no other files, apart from hidden ones. -/
theorem files_of_insert (h : e.WorksOn s root)
    (hdistinct : (view.columns.map fun series => segments series.path).Nodup)
    (hinsert : outcome (e.insert view unit) s = (.ok (), s')) :
    e.WorksOn s' root ∧
      (∀ column ∈ view.cellColumns, s'.store.disk.fileAt? (placeOf root unit column.1.path) =
        (updated? s.store.disk root unit column).map Document.bytes) ∧
      ∀ r, DirectoryStore.IsShown r →
        (∀ column ∈ view.cellColumns, r ≠ placeOf root unit column.1.path) →
          s'.store.disk.fileAt? r = s.store.disk.fileAt? r := by
  obtain ⟨-, -, -, -, hfiles, hwrite⟩ := outcome_insert_eq_ok h hinsert
  obtain ⟨ht, -, hcolumns, hothers⟩ := DirectoryStore.files_of_writeColumns h.isPlainTree
    (fun column hcolumn => isFilePlace_of_columns h hfiles hcolumn) (nodup_places hdistinct) hwrite
  exact ⟨⟨h.store, h.managed, h.isEntryName, ht⟩, hcolumns, hothers⟩

/-- The file of a column holds what has become of its document. -/
theorem fileAt?_of_updated? (h : e.WorksOn s root)
    (hdistinct : (view.columns.map fun series => segments series.path).Nodup)
    (hinsert : outcome (e.insert view unit) s = (.ok (), s'))
    {column : SeriesInfo × List (Key × Value)} (hcolumn : column ∈ view.cellColumns)
    {doc : Document} (hdoc : updated? s.store.disk root unit column = some doc) :
    s'.store.disk.fileAt? (placeOf root unit column.1.path) = some doc.bytes := by
  obtain ⟨-, hstored, -⟩ := files_of_insert h hdistinct hinsert
  rw [hstored column hcolumn, hdoc, Option.map_some]

/-- A column with cells has a document of its type and with its tags, and in it the
cells. -/
theorem updated?_of_cells (h : e.WorksOn s root)
    (hdistinct : (view.columns.map fun series => segments series.path).Nodup)
    (hinsert : outcome (e.insert view unit) s = (.ok (), s'))
    {column : SeriesInfo × List (Key × Value)} (hcolumn : column ∈ view.cellColumns)
    (hne : column.2 ≠ []) :
    ∃ doc, updated? s.store.disk root unit column = some doc ∧ doc.dataType = column.1.dataType ∧
      doc.tags = column.1.tags ∧ ∀ cell ∈ column.2, doc.records.get? cell.1 = some cell.2 := by
  obtain ⟨-, -, -, -, hfiles, hwrite⟩ := outcome_insert_eq_ok h hinsert
  obtain ⟨-, htypes, -, -⟩ := DirectoryStore.files_of_writeColumns h.isPlainTree
    (fun column hcolumn => isFilePlace_of_columns h hfiles hcolumn) (nodup_places hdistinct) hwrite
  obtain ⟨i, -, hcells⟩ := DataView.mem_cellColumns hcolumn
  have hpairwise : column.2.Pairwise fun a b => a.1 < b.1 := hcells ▸ view.pairwise_cells i
  rw [updated?]
  cases hdoc : s.store.disk.docAt? (placeOf root unit column.1.path) with
  | none =>
    rw [Document.upsert?, if_neg (by simpa using hne)]
    exact ⟨_, rfl, rfl, rfl, fun cell hcell => get?_addCells_of_mem hpairwise hcell⟩
  | some doc =>
    exact ⟨_, rfl, (htypes column hcolumn doc hdoc hne).symm, rfl,
      fun cell hcell => get?_addCells_of_mem hpairwise hcell⟩

/-- The keys of the cells of a view are below the greatest one. -/
theorem lt_top_of_mem_cellColumns {column : SeriesInfo × List (Key × Value)}
    (hcolumn : column ∈ view.cellColumns) {cell : Key × Value} (hcell : cell ∈ column.2) :
    cell.1 < Key.top := by
  obtain ⟨i, -, hcells⟩ := DataView.mem_cellColumns hcolumn
  rw [hcells] at hcell
  exact Layout.lt_top_of_mem view.consistent (DataView.line_of_mem_cells hcell).1

/-- **What is shown of a column after it was inserted**: the values that are read of its
cells, if all values of its document can be read, and otherwise a failure. -/
theorem project_of_insert (h : e.WorksOn s root)
    (hdistinct : (view.columns.map fun series => segments series.path).Nodup)
    (hinsert : outcome (e.insert view unit) s = (.ok (), s'))
    {column : SeriesInfo × List (Key × Value)} (hcolumn : column ∈ view.cellColumns)
    (hne : column.2 ≠ []) (hglob : Glob.isGlob column.1.path = false) :
    ∃ doc, updated? s.store.disk root unit column = some doc ∧
      (doc.IsFinite → ∃ rows,
        (outcome (e.project [column.1.path] none none unit false) s').1 = .ok rows ∧
          rows.header = [column.1] ∧
          ∀ cell ∈ column.2, ⟨cell.1, [some cell.2.reread]⟩ ∈ rows.rows) ∧
      (¬doc.IsFinite → (outcome (e.project [column.1.path] none none unit false) s').1 =
        .error (.task .project .unreadable)) := by
  obtain ⟨doc, hdoc, htype, htags, hcells⟩ := updated?_of_cells h hdistinct hinsert hcolumn hne
  obtain ⟨h', -⟩ := files_of_insert h hdistinct hinsert
  obtain ⟨-, -, hopen, hstoreOpen, hfiles, -⟩ := outcome_insert_eq_ok h hinsert
  obtain ⟨file, hfile⟩ := hfiles column.1 (DataView.mem_columns hcolumn)
  have hplace := ((file_eq_ok_iff h.isEntryName).mp hfile).2.2.2
  have hcontent := fileAt?_of_updated? h hdistinct hinsert hcolumn hdoc
  refine ⟨doc, hdoc, fun hfinite => ?_, fun hfinite => ?_⟩
  · have hload : DirectoryStore.load s'.store.disk file = .ok (some doc.reread) := by
      rw [hplace]
      exact DirectoryStore.load_of_fileAt? h'.isPlainTree.toIsTree hcontent
        (Document.ofBytes?_bytes_of_isFinite hfinite)
    obtain ⟨rows, hrun, hheader, hrows⟩ :=
      outcome_project_of_load h' hopen hstoreOpen hglob hfile hload
    refine ⟨rows, hrun, ?_, fun cell hcell => ?_⟩
    · rw [hheader, Document.reread, htype, htags]
    · refine hrows cell.1 cell.2.reread ?_ (lt_top_of_mem_cellColumns hcolumn hcell)
      rw [Document.reread, OrderedMap.get?_map, hcells cell hcell, Option.map_some]
  · have hload : DirectoryStore.load s'.store.disk file = .error .unreadable := by
      rw [hplace]
      exact DirectoryStore.load_of_unreadable h'.isPlainTree.toIsTree hcontent
        (Document.ofBytes?_bytes_of_not_isFinite hfinite)
    rw [outcome_project_plain h' hopen hstoreOpen hglob hfile, DirectoryStore.readSeries, hload]
    rfl

/-- **The series of a unit are still shown after an insertion** if all documents that
were written can be read. -/
theorem isOk_schema_of_insert_iff (h : e.WorksOn s root)
    (hdistinct : (view.columns.map fun series => segments series.path).Nodup)
    (hinsert : outcome (e.insert view unit) s = (.ok (), s'))
    (hschema : (outcome (e.schema unit) s).1.isOk = true) :
    (outcome (e.schema unit) s').1.isOk = true ↔
      ∀ column ∈ view.cellColumns, ∀ doc,
        updated? s.store.disk root unit column = some doc → doc.IsFinite := by
  obtain ⟨h', hstored, hothers⟩ := files_of_insert h hdistinct hinsert
  obtain ⟨hopen, hstoreOpen, hopen', hstoreOpen', hfiles, -⟩ := outcome_insert_eq_ok h hinsert
  obtain ⟨hunit, hbefore⟩ := (isOk_schema_iff h hopen hstoreOpen).mp hschema
  rw [isOk_schema_iff h' hopen' hstoreOpen', and_iff_right hunit]
  constructor
  · intro hall column hcolumn doc hdoc
    obtain ⟨file, hfile⟩ := hfiles column.1 (DataView.mem_columns hcolumn)
    obtain ⟨-, hne, -, -⟩ := (file_eq_ok_iff h.isEntryName).mp hfile
    have hcontent := fileAt?_of_updated? h hdistinct hinsert hcolumn hdoc
    have hshown : (segments column.1.path).any DirectoryStore.isHidden = false :=
      List.any_eq_false.mpr fun n hn => by simp [isHidden_of_mem_segments hn]
    refine (isSome_docAt?_iff hcontent).mp (hall (segments column.1.path) hne hshown ?_)
    rw [← placeOf, hcontent]
    rfl
  · intro hfinite names hne hshown hfile
    by_cases hplace : ∃ column ∈ view.cellColumns,
        root ++ unit :: names = placeOf root unit column.1.path
    · obtain ⟨column, hcolumn, heq⟩ := hplace
      rw [heq] at hfile ⊢
      rw [hstored column hcolumn, Option.isSome_map] at hfile
      obtain ⟨doc, hdoc⟩ := Option.isSome_iff_exists.mp hfile
      have hcontent := fileAt?_of_updated? h hdistinct hinsert hcolumn hdoc
      exact (isSome_docAt?_iff hcontent).mpr (hfinite column hcolumn doc hdoc)
    · -- The other files are those from before.
      have hsame : s'.store.disk.fileAt? (root ++ unit :: names) =
          s.store.disk.fileAt? (root ++ unit :: names) := by
        refine hothers _ (fun n hn => ?_) fun column hcolumn heq => hplace ⟨column, hcolumn, heq⟩
        exact Bool.eq_false_iff.mpr (List.any_eq_false.mp hshown n (mem_of_getLast? hne hn))
      rw [hsame] at hfile
      rw [docAt?, hsame]
      exact hbefore names hne hshown hfile

/-- **What an insertion that succeeds leaves to be read.** The tree may hold anything but
links, and the columns go to different files. Every column with cells is then shown,
each cell with a value of its type, which is the cell itself if it is written with few
digits – unless a value of its document is a number that is not finite: then the
column cannot be read. And the series of the unit are still shown if and only if no
document that was written has such a value. -/
theorem reads_of_insert (h : e.WorksOn s root)
    (hdistinct : (view.columns.map fun series => segments series.path).Nodup)
    (hinsert : outcome (e.insert view unit) s = (.ok (), s')) :
    (∀ column ∈ view.cellColumns, column.2 ≠ [] → Glob.isGlob column.1.path = false →
      ∃ doc, updated? s.store.disk root unit column = some doc ∧
        (doc.IsFinite → ∃ rows,
          (outcome (e.project [column.1.path] none none unit false) s').1 = .ok rows ∧
            rows.header = [column.1] ∧
            ∀ cell ∈ column.2, ∃ v, ⟨cell.1, [some v]⟩ ∈ rows.rows ∧
              v.dataType = cell.2.dataType ∧ (cell.2.IsShort → v = cell.2)) ∧
        (¬doc.IsFinite → (outcome (e.project [column.1.path] none none unit false) s').1 =
          .error (.task .project .unreadable))) ∧
    ((outcome (e.schema unit) s).1.isOk = true →
      ((outcome (e.schema unit) s').1.isOk = true ↔
        ∀ column ∈ view.cellColumns, ∀ doc,
          updated? s.store.disk root unit column = some doc → doc.IsFinite)) := by
  refine ⟨fun column hcolumn hne hglob => ?_, isOk_schema_of_insert_iff h hdistinct hinsert⟩
  obtain ⟨doc, hdoc, hread, hfail⟩ := project_of_insert h hdistinct hinsert hcolumn hne hglob
  refine ⟨doc, hdoc, fun hfinite => ?_, hfail⟩
  obtain ⟨rows, hrun, hheader, hrows⟩ := hread hfinite
  exact ⟨rows, hrun, hheader, fun cell hcell => ⟨cell.2.reread, hrows cell hcell,
    cell.2.dataType_reread, Value.reread_of_isShort⟩⟩

end Insertion

/-! ### One number -/

/-- A view of one number. -/
def oneDouble (x : BinaryFloat .double) : DataView where
  orientation := .columns
  columns := [⟨"a", .double, .empty⟩]
  keys := [1]
  masks := [[true]]
  values := [[.double x]]
  consistent := rfl

/-- The engine of the directory `/d`. -/
def ofDirectory : Engine DirectoryStore := ⟨⟨some ⟨"/d"⟩, none⟩, false, DirectoryStore.store 1⟩

theorem noLinks_emptyDirectory : emptyDirectory.NoLinks := by
  intro q t hq
  rw [emptyDirectory, entry?_put (by simp)] at hq
  split at hq
  · cases hq
  · next hne =>
    by_cases hnil : q = []
    · subst hnil
      cases hq
    · rw [entry?_of_ne_nil _ hnil] at hq
      cases hq

theorem worksOn_ofDirectory : ofDirectory.WorksOn (.start emptyDirectory) ["d"] where
  store := ⟨1, rfl⟩
  managed := by decide
  isEntryName := by decide
  isPlainTree := ⟨isTree_emptyDirectory, noLinks_emptyDirectory⟩

/-- One half. -/
def half : BinaryFloat .double := ⟨0x3fe0000000000000⟩

/-- It is written as `0.5`. -/
theorem isShort_half : half.IsShort 22 := by
  have hshortest : (Rounding.of .double 0x10000000000000 (-53)).shortest .even = ⟨5, -1⟩ := by
    decide +kernel
  refine ⟨false, 0x10000000000000, -53, 5, 1, by decide +kernel, by norm_num, by norm_num, ?_⟩
  rw [BinaryFloat.written, if_neg (by norm_num), hshortest, Decimal.value]
  norm_num

theorem reads_of_insert_half :
    let s := EngineState.start emptyDirectory
    let s' := (outcome (ofDirectory.insert (oneDouble half) "u") s).2
    (outcome (ofDirectory.insert (oneDouble half) "u") s).1 = .ok () ∧
      (∃ rows, (outcome (ofDirectory.project ["a"] none none "u" false) s').1 = .ok rows ∧
        rows.header = [⟨"a", .double, .empty⟩] ∧ ⟨1, [some (.double half)]⟩ ∈ rows.rows) ∧
      (outcome (ofDirectory.schema "u") s').1.isOk = true := by
  intro s s'
  have hrun : (outcome (ofDirectory.insert (oneDouble half) "u") s).1 = .ok () := by decide +kernel
  obtain ⟨hcolumns, hschema⟩ := reads_of_insert worksOn_ofDirectory
    (by decide : ((oneDouble half).columns.map fun series => segments series.path).Nodup)
    (outcome_of_fst hrun)
  have hcells :
      (oneDouble half).cellColumns = [(⟨"a", .double, .empty⟩, [(1, .double half)])] := rfl
  rw [hcells] at hcolumns hschema
  have hfinite : ∀ doc, updated? s.store.disk ["d"] "u"
      (⟨"a", .double, .empty⟩, [(1, .double half)]) = some doc → doc.IsFinite := by
    intro doc hdoc
    have hnew : updated? emptyDirectory ["d"] "u" (⟨"a", .double, .empty⟩, [(1, .double half)]) =
        some ⟨.double, .empty, addCells .empty [(1, .double half)]⟩ := by decide +kernel
    obtain rfl := Option.some.inj (hdoc.symm.trans hnew)
    intro entry hentry
    obtain rfl := List.mem_singleton.mp hentry
    show half.isFinite = true
    decide +kernel
  obtain ⟨doc, hdoc, hread, -⟩ := hcolumns _ List.mem_cons_self (by simp) (by decide)
  obtain ⟨rows, hproject, hheader, hrows⟩ := hread (hfinite doc hdoc)
  obtain ⟨v, hv, -, hsame⟩ := hrows _ List.mem_cons_self
  rw [hsame isShort_half] at hv
  refine ⟨hrun, ⟨rows, hproject, hheader, hv⟩, (hschema (by decide +kernel)).mpr ?_⟩
  intro column hcolumn
  obtain rfl := List.mem_singleton.mp hcolumn
  exact hfinite

/-- No number at all. -/
def notANumber : BinaryFloat .double := ⟨0x7ff8000000000000⟩

/-- It is inserted, and then neither the column can be read nor the series be shown. -/
theorem unreadable_of_insert_notANumber :
    let s := EngineState.start emptyDirectory
    let s' := (outcome (ofDirectory.insert (oneDouble notANumber) "u") s).2
    (outcome (ofDirectory.insert (oneDouble notANumber) "u") s).1 = .ok () ∧
      (outcome (ofDirectory.project ["a"] none none "u" false) s').1 =
        .error (.task .project .unreadable) ∧
      (outcome (ofDirectory.schema "u") s).1 = .ok [] ∧
      (outcome (ofDirectory.schema "u") s').1 = .error (.noMetadata ⟨"/d/u/a"⟩) := by
  decide +kernel

end Engine

end KeyedSeries

import KeyedSeries.Proofs.Disk.Child
import KeyedSeries.Proofs.Engine.Confinement

/-!
# Series that are listed and series that can be asked for

The schema lists the files of a unit, and those of the history, by the paths that their
names make. A projection goes the other way, from a path to a file. **If no name has the
separator in it and the path is no glob, the projection of the path that a series is
listed by shows this series and nothing else**
(`KeyedSeries.Engine.listed_of_schema`), in the history as in a unit. A name with the
separator in it makes a path of more segments, which lead to another file or to none
(`KeyedSeries.Engine.project_of_separator_in_name`).
-/

namespace KeyedSeries

open Disk FilePath

namespace Engine

variable {e : Engine DirectoryStore} {s s' : EngineState DirectoryStore} {unit : String}
  {chunkSize : Nat} {entry : SchemaEntry} {names : List String}

/-- What a file holds as the schema shows it: every file of the history is a series of bytes,
and a file of a unit one of its document. -/
def IsSeriesOf (d : Disk) (file : Place) (names : List String) (entry : SchemaEntry) : Prop :=
  if entry.isHistory then
    (d.fileAt? file).isSome = true ∧ entry.series = ⟨Catalog.pathOf names, .binary, .empty⟩
  else ∃ doc, d.docAt? file = some doc ∧
    entry.series = ⟨Catalog.pathOf names, doc.dataType, doc.tags⟩

/-- A series that the schema lists is that of a file below the base, whose names are not
hidden. -/
structure Lists (e : Engine DirectoryStore) (d : Disk) (unit : String) (names : List String)
    (entry : SchemaEntry) : Prop where
  /-- The file lies below the base. -/
  below : names ≠ []
  /-- No name on the way is hidden. -/
  shown : names.any DirectoryStore.isHidden = false
  /-- The file is there and holds the series. -/
  file : ∃ base place, e.IsBase unit entry.isHistory base ∧ d.dirPlace? base = some place ∧
    IsSeriesOf d (place ++ names) names entry

/-! ### What is listed -/

/-- A series that is described is that of a file with a document. -/
structure Describes (store : DirectoryStore) (base file : FilePath) (entry : SchemaEntry) :
    Prop where
  /-- The store is open. -/
  isOpen : store.closed = false
  /-- The file has the path of the series. -/
  path : Location.seriesPath? base file = some entry.series.path
  /-- It is said of the file what is listed. -/
  info : DirectoryStore.describeOne store.disk file =
    .ok (some ⟨entry.series.dataType, entry.series.tags⟩)
  /-- It is one of the unit. -/
  notHistory : entry.isHistory = false

theorem describeAll_eq_ok (hstore : e.store = DirectoryStore.store chunkSize) {base : FilePath}
    {files : List FilePath} {entries : List SchemaEntry}
    (h : outcome (e.describeAll base files) s = (.ok entries, s')) :
    s' = s ∧ ∀ entry ∈ entries, ∃ file ∈ files, Describes s.store base file entry := by
  induction files generalizing entries with
  | nil =>
    cases h
    exact ⟨rfl, by simp⟩
  | cons file rest ih =>
    have hmore : ∀ {entries : List SchemaEntry}, (∀ entry ∈ entries, ∃ file ∈ rest,
        Describes s.store base file entry) → ∀ entry ∈ entries, ∃ file' ∈ file :: rest,
          Describes s.store base file' entry := by
      intro entries hall entry hentry
      obtain ⟨file', hfile', hfound⟩ := hall entry hentry
      exact ⟨file', List.mem_cons_of_mem _ hfile', hfound⟩
    rw [describeAll] at h
    cases hpath : Location.seriesPath? base file with
    | none =>
      rw [hpath] at h
      obtain ⟨hsame, hall⟩ := ih h
      exact ⟨hsame, hmore hall⟩
    | some path =>
      rw [hpath] at h
      simp only [outcome_bind_eq_ok_iff, outcome_callFor_eq_ok_iff, hstore,
        DirectoryStore.outcome_describe_eq_ok_iff] at h
      obtain ⟨info, _, ⟨_, ⟨hopen, hinfo, rfl⟩, rfl⟩, h⟩ := h
      cases info with
      | none => cases h
      | some info =>
        simp only [outcome_bind_eq_ok_iff, outcome_pure, Prod.mk.injEq] at h
        obtain ⟨others, _, hothers, hentries, rfl⟩ := h
        obtain ⟨rfl, hall⟩ := ih hothers
        cases hentries
        exact ⟨rfl, List.forall_mem_cons.mpr
          ⟨⟨file, List.mem_cons_self, hopen, hpath, hinfo, rfl⟩, hmore hall⟩⟩

/-- The path of a file that was found below a base is made of its names. -/
theorem seriesPath?_foldl_child {base : FilePath} (hne : names ≠ [])
    (h : ∀ n ∈ names, isEntryName n = true) :
    Location.seriesPath? base (names.foldl child base) = some (Catalog.pathOf names) :=
  seriesPath?_of_below (below?_foldl_child h) hne fun n hn =>
    (isEntryName_iff.mp (h n hn)).2.2

/-- What is read of a file that is found below a base is what stands there. -/
theorem load_foldl_child {d : Disk} (ht : d.IsPlainTree) {base : FilePath} {place : Place}
    (hbase : d.dirPlace? base = some place) (hne : names ≠ []) {content : Bytes}
    (hfile : d.fileAt? (place ++ names) = some content) :
    DirectoryStore.load d (names.foldl child base) =
      match Document.ofBytes? content with
      | some doc => .ok (some doc)
      | none => .error .unreadable := by
  have hlocate := locate_foldl_child ht hbase hne (fileAt?_eq_some_iff.mp hfile)
  rw [DirectoryStore.load, isDir, dirPlace?, Disk.read, hlocate]
  cases hdoc : Document.ofBytes? content <;> simp [hdoc]

/-- A series of a unit that is listed is that of a file with its document. -/
theorem lists_of_describes (ht : s.store.disk.IsPlainTree) {root base file : FilePath}
    (hroot : e.roots.managed = some root) (hbase : Location.unitDir root unit = .ok base)
    (hfile : file ∈ DirectoryStore.listFiles s.store.disk base true)
    (h : Describes s.store base file entry) : ∃ names, Lists e s.store.disk unit names entry := by
  obtain ⟨⟨path, dataType, tags⟩, isHistory⟩ := entry
  obtain ⟨hopen, hpath, hinfo, rfl⟩ := h
  obtain ⟨place, names, hplace, hne, hshown, hthere, rfl⟩ :=
    DirectoryStore.mem_listFiles_iff.mp hfile
  obtain ⟨content, hcontent⟩ := Option.isSome_iff_exists.mp hthere
  have hnames : ∀ n ∈ names, isEntryName n = true := fun n hn =>
    (ht.fits (fileAt?_eq_some_iff.mp hcontent) n (List.mem_append_right _ hn)).isEntryName
  rw [seriesPath?_foldl_child hne hnames] at hpath
  rw [DirectoryStore.describeOne, load_foldl_child ht hplace hne hcontent] at hinfo
  refine ⟨names, hne, hshown, base, place, ⟨root, hroot, hbase⟩, hplace, ?_⟩
  cases hdoc : Document.ofBytes? content with
  | none =>
    rw [hdoc] at hinfo
    cases hinfo
  | some doc =>
    rw [hdoc] at hinfo
    cases hinfo
    cases hpath
    exact ⟨doc, by rw [docAt?, hcontent, Option.bind_some, hdoc], rfl⟩

/-- A series of the history that is listed is a file of it. -/
theorem lists_of_history (ht : s.store.disk.IsPlainTree) {root file : FilePath} {path : String}
    (hroot : e.roots.history = some root)
    (hfile : file ∈ DirectoryStore.listFiles s.store.disk root true)
    (hpath : Location.seriesPath? root file = some path) :
    ∃ names, Lists e s.store.disk unit names ⟨⟨path, .binary, .empty⟩, true⟩ := by
  obtain ⟨place, names, hplace, hne, hshown, hthere, rfl⟩ :=
    DirectoryStore.mem_listFiles_iff.mp hfile
  rw [seriesPath?_foldl_child hne fun n hn => (ht.fits_of_isSome_fileAt? hthere n
    (List.mem_append_right _ hn)).isEntryName] at hpath
  cases hpath
  exact ⟨names, hne, hshown, root, place, hroot, hplace, hthere, rfl⟩

/-- To list the series of the history adds them to the others, and changes nothing. -/
theorem withHistory_eq_ok (hstore : e.store = DirectoryStore.store chunkSize)
    (ht : s.store.disk.IsPlainTree) (unit : String) {managed entries : List SchemaEntry}
    (h : outcome (e.withHistory managed) s = (.ok entries, s')) :
    s' = s ∧ ∀ entry ∈ entries, entry ∈ managed ∨
      s.store.closed = false ∧ ∃ names, Lists e s.store.disk unit names entry := by
  rw [withHistory] at h
  split at h
  · cases h
    exact ⟨rfl, fun entry hentry => .inl hentry⟩
  · next root hroot =>
    simp only [outcome_bind_eq_ok_iff, outcome_callFor_eq_ok_iff, hstore,
      DirectoryStore.outcome_list_eq_ok_iff, outcome_pure, Prod.mk.injEq] at h
    obtain ⟨files, _, ⟨_, ⟨hopen, rfl, rfl⟩, rfl⟩, hentries, rfl⟩ := h
    cases hentries
    refine ⟨rfl, fun entry hentry => ?_⟩
    rcases List.mem_append.mp hentry with hentry | hentry
    · exact .inl hentry
    · obtain ⟨file, hfile, hlisted⟩ := List.mem_filterMap.mp hentry
      obtain ⟨path, hpath, rfl⟩ := Option.map_eq_some_iff.mp hlisted
      exact .inr ⟨hopen, lists_of_history ht hroot hfile hpath⟩

/-- The series of a unit are found with an engine: none, if no root is managed, and else those of
the files of the unit, which are described while the unit is locked. -/
inductive ListsManaged (e : Engine DirectoryStore) (s : EngineState DirectoryStore)
    (unit : String) : List SchemaEntry → Prop
  /-- There is no managed root. -/
  | none (hroot : e.roots.managed = Option.none) : ListsManaged e s unit []
  /-- The files of the unit are described. -/
  | files {root base : FilePath} {locked : EngineState DirectoryStore}
    {managed : List SchemaEntry} (hroot : e.roots.managed = some root)
    (hbase : Location.unitDir root unit = .ok base) (hopen : s.store.closed = false)
    (hdescribe : outcome (e.describeAll base
      (DirectoryStore.listFiles s.store.disk base true)) locked = (.ok managed, locked))
    (hlocked : locked.store = s.store) :
    ListsManaged e s unit managed

/-- **A schema** is what is found of the unit, with the series of the history behind it. -/
theorem managed_of_schema (hstore : e.store = DirectoryStore.store chunkSize)
    {entries : List SchemaEntry} (h : outcome (e.schema unit) s = (.ok entries, s')) :
    ∃ managed t, outcome (e.withHistory managed) t = (.ok entries, s') ∧
      t.store = s.store ∧ t.closed = false ∧ ListsManaged e s unit managed := by
  rw [schema_eq, outcome_bind_eq_ok_iff] at h
  obtain ⟨_, _, hstart, h⟩ := h
  obtain ⟨hopen, rfl⟩ := outcome_requireOpen_eq_ok_iff.mp hstart
  split at h
  · next hroot => exact ⟨[], _, h, rfl, hopen, .none hroot⟩
  · next root hroot =>
    simp only [outcome_bind_eq_ok_iff, outcome_known, Prod.mk.injEq, outcome_guarded_eq_ok_iff,
      outcome_callFor_eq_ok_iff, hstore, DirectoryStore.outcome_list_eq_ok_iff] at h
    obtain ⟨base, _, ⟨hbase, rfl⟩, managed, _, ⟨_, ⟨files, _, ⟨_, ⟨hstoreOpen, rfl, rfl⟩, rfl⟩,
      hdescribe⟩, rfl⟩, h⟩ := h
    -- To describe files changes nothing, and so the history is listed in the same store.
    obtain ⟨rfl, -⟩ := describeAll_eq_ok hstore hdescribe
    exact ⟨managed, _, h, rfl, hopen, .files hroot hbase hstoreOpen hdescribe rfl⟩

/-- **Every series that is listed** is that of a file, and to list them leaves the store as
it is. -/
theorem schema_eq_ok (hstore : e.store = DirectoryStore.store chunkSize)
    (ht : s.store.disk.IsPlainTree) {entries : List SchemaEntry}
    (h : outcome (e.schema unit) s = (.ok entries, s')) :
    s'.closed = false ∧ s'.store = s.store ∧ ∀ entry ∈ entries, s.store.closed = false ∧
      ∃ names, Lists e s.store.disk unit names entry := by
  obtain ⟨managed, t, hrest, hsame, hopen, hmanaged⟩ := managed_of_schema hstore h
  obtain ⟨rfl, hall⟩ := withHistory_eq_ok hstore (hsame ▸ ht) unit hrest
  refine ⟨hopen, hsame, fun entry hentry => ?_⟩
  rcases hall entry hentry with hentry | hlisted
  · cases hmanaged with
    | none => cases hentry
    | files hroot hbase hstoreOpen hdescribe hlocked =>
      obtain ⟨-, hdescribed⟩ := describeAll_eq_ok hstore hdescribe
      obtain ⟨file, hfile, hdescribes⟩ := hdescribed entry hentry
      rw [hlocked] at hdescribes
      exact ⟨hstoreOpen, lists_of_describes ht hroot hbase hfile hdescribes⟩
  · rwa [hsame] at hlisted

/-! ### What is shown -/

/-- **A series that is listed is shown under its path**, if its names have no separator in them
and the path is no glob. -/
theorem header_of_lists (hstore : e.store = DirectoryStore.store chunkSize)
    (hopen : s.closed = false) (hstoreOpen : s.store.closed = false) (ht : s.store.disk.IsPlainTree)
    (h : Lists e s.store.disk unit names entry)
    (hnames : ∀ n ∈ names, Location.separator ∉ n.toList)
    (hglob : Glob.isGlob entry.series.path = false) :
    ∃ rows s', outcome (e.project [entry.series.path] none none unit entry.isHistory) s =
      (.ok rows, s') ∧ rows.header = [entry.series] := by
  obtain ⟨⟨path, dataType, tags⟩, isHistory⟩ := entry
  obtain ⟨hne, -, base, place, hbase, hplace, hfile⟩ := h
  -- The file is there, and the path of its names leads to it.
  obtain ⟨content, hcontent, hpath⟩ :
      ∃ content, s.store.disk.fileAt? (place ++ names) = some content ∧
      path = Catalog.pathOf names := by
    cases isHistory with
    | true =>
      obtain ⟨hthere, hseries⟩ := hfile
      obtain ⟨content, hcontent⟩ := Option.isSome_iff_exists.mp hthere
      exact ⟨content, hcontent, congrArg SeriesInfo.path hseries⟩
    | false =>
      obtain ⟨doc, hdoc, hseries⟩ := hfile
      obtain ⟨content, hcontent, -⟩ := Option.bind_eq_some_iff.mp hdoc
      exact ⟨content, hcontent, congrArg SeriesInfo.path hseries⟩
  have hsegments : ∀ n ∈ names, IsSegment n := fun n hn =>
    ⟨ht.fits (fileAt?_eq_some_iff.mp hcontent) n (List.mem_append_right _ hn), hnames n hn⟩
  have hbelow : Location.fileBelow base (Catalog.pathOf names) = .ok (names.foldl child base) :=
    fileBelow_foldl_child hne hsegments
  rw [← hpath] at hbelow
  cases isHistory with
  | true =>
    obtain ⟨-, hseries⟩ := hfile
    have hread : DirectoryStore.readHistory s.store.disk (max chunkSize 1) (names.foldl child base)
        [KeyRange.full] = .ok [⟨names.foldl child base, .binary, .empty,
          (DirectoryStore.chunkRecords (max chunkSize 1) content).filter fun r =>
            KeyRange.anyContains [KeyRange.full] r.key⟩] := by
      rw [DirectoryStore.readHistory, isFile, Disk.read,
        locate_foldl_child ht hplace hne (fileAt?_eq_some_iff.mp hcontent)]
      rfl
    have hrun := outcome_project_file hstore hopen hstoreOpen true hbase hglob hbelow
    rw [if_pos rfl, hread] at hrun
    exact ⟨_, _, outcome_of_fst hrun, by rw [hseries]; rfl⟩
  | false =>
    obtain ⟨doc, hdoc, hseries⟩ := hfile
    have hread : DirectoryStore.readSeries s.store.disk (names.foldl child base) none
        [KeyRange.full] = .ok [⟨names.foldl child base, doc.dataType, doc.tags,
          DirectoryStore.recordsIn doc [KeyRange.full]⟩] := by
      rw [docAt?, hcontent, Option.bind_some] at hdoc
      rw [DirectoryStore.readSeries, load_foldl_child ht hplace hne hcontent, hdoc]
      rfl
    have hrun := outcome_project_file hstore hopen hstoreOpen false hbase hglob hbelow
    rw [if_neg Bool.false_ne_true, hread] at hrun
    exact ⟨_, _, outcome_of_fst hrun, by rw [hseries]; rfl⟩

/-- **Every series that is listed** is that of a file, and can be asked for by its path: what
is shown has the series for its only column, if the names of the file have no separator in
them and the path is no glob. -/
theorem listed_of_schema (hstore : e.store = DirectoryStore.store chunkSize)
    (ht : s.store.disk.IsPlainTree) {entries : List SchemaEntry}
    (h : outcome (e.schema unit) s = (.ok entries, s')) :
    ∀ entry ∈ entries, (∃ names, Lists e s.store.disk unit names entry) ∧
      ∀ names, Lists e s.store.disk unit names entry →
        (∀ n ∈ names, Location.separator ∉ n.toList) → Glob.isGlob entry.series.path = false →
          ∃ rows s'', outcome (e.project [entry.series.path] none none unit entry.isHistory) s' =
            (.ok rows, s'') ∧ rows.header = [entry.series] := by
  obtain ⟨hopen, hsame, hall⟩ := schema_eq_ok hstore ht h
  intro entry hentry
  obtain ⟨hstoreOpen, hlisted⟩ := hall entry hentry
  rw [← hsame] at ht hstoreOpen
  exact ⟨hlisted, fun names hlists hnames hglob =>
    header_of_lists hstore hopen hstoreOpen ht (hsame ▸ hlists) hnames hglob⟩

/-- A disk with a series of a unit in `/m`, and two files of a history in `/h`. -/
def listedDisk : Disk :=
  ⟨.ofList [(["h"], .dir), (["h", "b"], .file [1, 2]), (["h", "c.d"], .file [3]), (["m"], .dir),
    (["m", "u"], .dir), (["m", "u", "d"], .dir),
    (["m", "u", "d", "a"], .file (Document.bytes ⟨.long, .empty, .ofList [(1, .long 5)]⟩))]⟩

/-- An engine over `/m` with the history in `/h`. -/
def listingEngine : Engine DirectoryStore :=
  ⟨⟨some ⟨"/m"⟩, some ⟨"/h"⟩⟩, false, DirectoryStore.store 1048576⟩

/-- The series of the unit and the first one of the history are listed, and can be asked
for. -/
theorem listed_of_schema_twoRoots :
    let s : EngineState DirectoryStore := .start listedDisk
    let s' := (outcome (listingEngine.schema "u") s).2
    let managed : SchemaEntry := ⟨⟨"d.a", .long, .empty⟩, false⟩
    let history : SchemaEntry := ⟨⟨"b", .binary, .empty⟩, true⟩
    let dotted : SchemaEntry := ⟨⟨"c.d", .binary, .empty⟩, true⟩
    listedDisk.IsPlainTree ∧
      (outcome (listingEngine.schema "u") s).1 = .ok [managed, history, dotted] ∧
      (∃ rows s'', outcome (listingEngine.project ["d.a"] none none "u" false) s' =
        (.ok rows, s'') ∧
        rows.header = [managed.series]) ∧
      ∃ rows s'', outcome (listingEngine.project ["b"] none none "u" true) s' = (.ok rows, s'') ∧
        rows.header = [history.series] := by
  intro s s' managed history dotted
  have htree : listedDisk.IsPlainTree := by decide +kernel
  have hrun : (outcome (listingEngine.schema "u") s).1 = .ok [managed, history, dotted] := by
    decide +kernel
  have hlisted := listed_of_schema (e := listingEngine) rfl (s := s) htree
    (outcome_of_fst hrun)
  have hmanaged : Lists listingEngine listedDisk "u" ["d", "a"] managed :=
    ⟨by decide, by decide, ⟨"/m/u"⟩, ["m", "u"], ⟨⟨"/m"⟩, rfl, by decide⟩, by decide +kernel,
      ⟨.long, .empty, .ofList [(1, .long 5)]⟩, by decide +kernel, by decide +kernel⟩
  have hhistory : Lists listingEngine listedDisk "u" ["b"] history :=
    ⟨by decide, by decide, ⟨"/h"⟩, ["h"], rfl, by decide +kernel, by decide +kernel,
      by decide +kernel⟩
  exact ⟨htree, hrun,
    (hlisted managed (by simp)).2 ["d", "a"] hmanaged (by decide) (by decide),
    (hlisted history (by simp)).2 ["b"] hhistory (by decide) (by decide)⟩

/-- **A separator in a name**: the file is listed by a path that leads to no file, and what is
shown for it has no columns. -/
theorem project_of_separator_in_name :
    let s : EngineState DirectoryStore := .start listedDisk
    let s' := (outcome (listingEngine.schema "u") s).2
    let dotted : SchemaEntry := ⟨⟨"c.d", .binary, .empty⟩, true⟩
    listedDisk.IsPlainTree ∧
      (outcome (listingEngine.schema "u") s).1.toOption.any (dotted ∈ ·) = true ∧
      (outcome (listingEngine.project ["c.d"] none none "u" true) s').1 = .ok .empty := by
  decide +kernel

end Engine

end KeyedSeries

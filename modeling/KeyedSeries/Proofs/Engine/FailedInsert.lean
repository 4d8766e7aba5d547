import KeyedSeries.Proofs.DataView.FirstColumns
import KeyedSeries.Proofs.Engine.Stored
import KeyedSeries.Proofs.Store.Failing

/-!
# Insertions that fail

An insertion asks for the files of all columns before it writes the first one. **If it fails
before that, the disk is as it was; if it fails in the store, it has stored some of the first
columns and nothing else** (`KeyedSeries.Engine.files_of_failed_insert`): every file that is
not hidden is what it is after an insertion of these columns alone, which succeeds. So a series
is never half written. The tree may hold anything but links.
-/

namespace KeyedSeries

open Disk FilePath

namespace Location

variable {root : FilePath} {unit path : String} {failure : Failure}

theorem descend_eq_error {base : FilePath} {names : List String}
    (h : descend base names = .error failure) : ∃ fault, failure = .argument fault := by
  induction names generalizing base with
  | nil => cases h
  | cons n rest ih =>
    rw [descend] at h
    split at h
    · exact ih h
    · cases h
      exact ⟨_, rfl⟩

/-- A path that leads to no file is a wrong argument. -/
theorem file_eq_error (h : Location.file root unit path = .error failure) :
    ∃ fault, failure = .argument fault := by
  rw [Location.file] at h
  split at h
  · rw [fileBelow] at h
    split at h
    · cases h
      exact ⟨_, rfl⟩
    · exact descend_eq_error h
  · next hunit =>
    rw [unitDir] at hunit
    split at hunit
    · cases hunit
    · cases hunit
      cases h
      exact ⟨_, rfl⟩

end Location

namespace Engine

open Location

section AnyStore

variable {σ : Type} {e : Engine σ} {unit : String} {failure : Failure}

/-- A failure of the engine itself, before the store is called. -/
def IsOwn (failure : Failure) : Prop := ∀ task cause, failure ≠ .task task cause

theorem isOwn_of_writableRoot (h : e.writableRoot = .error failure) : IsOwn failure := by
  rw [writableRoot] at h
  intro task cause heq
  subst heq
  split at h
  · cases h
  · rw [managedRoot] at h
    split at h <;> cases h

theorem isOwn_of_filesOf {root : FilePath} {columns : List SeriesInfo}
    (h : filesOf root unit columns = .error failure) : IsOwn failure := by
  induction columns with
  | nil => cases h
  | cons series rest ih =>
    rw [filesOf] at h
    split at h
    · next hfile =>
      cases h
      obtain ⟨fault, rfl⟩ := file_eq_error hfile
      intro task cause heq
      cases heq
    · split at h
      · next hrest =>
        cases h
        exact ih hrest
      · cases h

/-- **An insertion that fails** has not called the store, or the store has failed with the
files of the columns. -/
theorem outcome_insert_eq_error {view : DataView} {s s' : EngineState σ}
    (h : outcome (e.insert view unit) s = (.error failure, s')) :
    IsOwn failure ∧ s'.store = s.store ∨
      s.closed = false ∧ ∃ root files cause, e.writableRoot = .ok root ∧
        filesOf root unit view.columns = .ok files ∧ failure = .task .insert cause ∧
        outcome (e.store.write files view.records (view.columns.map (·.tags))) s.store =
          (.error cause, s'.store) := by
  rw [Engine.insert, DataView.encode_eq_records, outcome_bind, outcome_requireOpen] at h
  cases hclosed : s.closed with
  | true =>
    rw [hclosed] at h
    cases h
    refine .inl ⟨fun task cause heq => ?_, rfl⟩
    cases heq
  | false =>
    simp only [hclosed, Bool.false_eq_true, if_false, outcome_bind, outcome_known] at h
    cases hroot : e.writableRoot with
    | error failure' =>
      rw [hroot] at h
      cases h
      exact .inl ⟨isOwn_of_writableRoot hroot, rfl⟩
    | ok root =>
      simp only [hroot] at h
      cases hfiles : filesOf root unit view.columns with
      | error failure' =>
        rw [hfiles] at h
        cases h
        exact .inl ⟨isOwn_of_filesOf hfiles, rfl⟩
      | ok files =>
        simp only [hfiles, outcome_guarded, outcome_callFor, Prod.mk.injEq] at h
        obtain ⟨hresult, rfl⟩ := h
        cases hwrite : (outcome (e.store.write files view.records (view.columns.map (·.tags)))
            s.store).1 with
        | ok u =>
          rw [hwrite] at hresult
          cases hresult
        | error cause =>
          rw [hwrite] at hresult
          cases hresult
          exact .inr ⟨rfl, root, files, cause, rfl, hfiles, rfl, Prod.ext hwrite rfl⟩

end AnyStore

variable {e : Engine DirectoryStore} {s s' : EngineState DirectoryStore} {root : Place}
  {unit : String} {view : DataView} {failure : Failure}

/-- The files of fewer columns are found if those of all are. -/
theorem filesOf_take {path : FilePath} {columns : List SeriesInfo} {files : List FilePath}
    (h : filesOf path unit columns = .ok files) (k : Nat) :
    filesOf path unit (columns.take k) = .ok (files.take k) := by
  induction columns generalizing files k with
  | nil =>
    cases h
    rw [List.take_nil, List.take_nil]
    rfl
  | cons series rest ih =>
    rw [filesOf] at h
    split at h
    · cases h
    · next file hfile =>
      split at h
      · cases h
      · next others hothers =>
        cases h
        cases k with
        | zero => rfl
        | succ k =>
          rw [List.take_succ_cons, List.take_succ_cons, filesOf, hfile]
          simp only [ih hothers k]

/-- **An insertion that finds its files** comes to what writing its columns comes to. -/
theorem outcome_insert_of_writeColumns (h : e.WorksOn s root)
    (hroot : e.writableRoot = .ok (ofPlace root)) (hopen : s.closed = false)
    (hstoreOpen : s.store.closed = false) {files : List FilePath}
    (hfiles : filesOf (ofPlace root) unit view.columns = .ok files) {result : Except Failure Unit}
    {d : Disk} (hwrite : DirectoryStore.forAll
      (DirectoryStore.writeColumn fun series => placeOf root unit series.path)
        s.store.disk view.cellColumns = (result, d)) :
    ∃ locks, outcome (e.insert view unit) s =
      (result.mapError (.task .insert), { s with store := { s.store with disk := d }, locks }) := by
  obtain ⟨chunkSize, hstore⟩ := h.store
  obtain ⟨rfl, -⟩ := filesOf_eq_ok h.isEntryName hfiles
  rw [← writeAll_cellColumns] at hwrite
  have hcall := DirectoryStore.outcome_write chunkSize hstoreOpen hwrite
  rw [Engine.insert, DataView.encode_eq_records]
  simp only [outcome_bind, outcome_requireOpen, hopen, Bool.false_eq_true, if_false, outcome_known,
    hroot, hfiles, outcome_guarded, outcome_callFor, hstore, hcall]
  exact ⟨_, rfl⟩

/-- What the store comes to is what the columns come to, one after the other. -/
theorem writeColumns_of_outcome_write {t t' : DirectoryStore} {chunkSize : Nat}
    (hopen : t.closed = false) {result : Except Failure Unit}
    (h : outcome ((DirectoryStore.store chunkSize).write
      (view.columns.map fun series => ofPlace (placeOf root unit series.path)) view.records
        (view.columns.map (·.tags))) t = (result, t')) :
    DirectoryStore.forAll
      (DirectoryStore.writeColumn fun series => placeOf root unit series.path)
        t.disk view.cellColumns = (result, t'.disk) := by
  have hrun := DirectoryStore.outcome_write chunkSize hopen
    (writeAll_cellColumns view (fun series => placeOf root unit series.path) t.disk)
  rw [hrun, Prod.mk.injEq] at h
  exact Prod.ext h.1 (congrArg DirectoryStore.disk h.2)

/-- **What an insertion that fails leaves behind.** The tree may hold anything but links, and the
store of an open engine is open. If the failure is one of the engine itself, the disk is as it was.
If it is one of the task, the task is the insertion, and there is a column such that the insertion
of those before it succeeds and leaves every file that is not hidden with the content, or the
absence, that it has now; so every file of none of these columns is as it was. -/
theorem files_of_failed_insert (h : e.WorksOn s root)
    (hstoreOpen : s.closed = false → s.store.closed = false)
    (hinsert : outcome (e.insert view unit) s = (.error failure, s')) :
    ((∀ task cause, failure ≠ .task task cause) → s'.store.disk = s.store.disk) ∧
    ∀ task cause, failure = .task task cause → task = .insert ∧
      ∃ k < view.columns.length, ∃ s'',
        outcome (e.insert (view.firstColumns k) unit) s = (.ok (), s'') ∧
          (∀ r, DirectoryStore.IsShown r →
            s'.store.disk.fileAt? r = s''.store.disk.fileAt? r) ∧
          ∀ r, DirectoryStore.IsShown r →
            (∀ series ∈ (view.firstColumns k).columns, r ≠ placeOf root unit series.path) →
              s'.store.disk.fileAt? r = s.store.disk.fileAt? r := by
  rcases outcome_insert_eq_error hinsert with
    ⟨hown, hsame⟩ | ⟨hopen, path, files, cause, hpath, hfiles, rfl, hwrite⟩
  · exact ⟨fun _ => by rw [hsame], fun task cause htask => absurd htask (hown task cause)⟩
  · refine ⟨fun hown => absurd rfl (hown .insert cause), fun task cause' htask => ?_⟩
    cases htask
    refine ⟨rfl, ?_⟩
    obtain rfl := writableRoot_eq_ok h.managed hpath
    obtain ⟨hplaces, hall⟩ := filesOf_eq_ok h.isEntryName hfiles
    obtain ⟨chunkSize, hstore⟩ := h.store
    rw [hstore, hplaces] at hwrite
    have hcolumns := writeColumns_of_outcome_write (hstoreOpen hopen) hwrite
    have hfilePlaces : ∀ column ∈ view.cellColumns,
        DirectoryStore.IsFilePlace (placeOf root unit column.1.path) :=
      fun column hcolumn => isFilePlace_of_columns h hall hcolumn
    obtain ⟨k, d, hk, hbefore, hshown⟩ :=
      DirectoryStore.shown_of_writeColumns_error h.isPlainTree hfilePlaces hcolumns
    rw [← DataView.cellColumns_firstColumns] at hbefore
    obtain ⟨locks, hrun⟩ := outcome_insert_of_writeColumns h hpath hopen (hstoreOpen hopen)
      (filesOf_take hfiles k) hbefore
    have hlength : view.cellColumns.length = view.columns.length := by
      rw [DataView.cellColumns, List.length_map, List.length_zipIdx]
    refine ⟨k, hlength ▸ hk, _, hrun, hshown, fun r hr hnone => ?_⟩
    -- Of the other files none has changed before the failure either.
    rw [hshown r hr]
    refine (DirectoryStore.others_of_writeColumns h.isPlainTree (fun column hcolumn => ?_)
      hbefore).2 r hr fun column hcolumn => hnone column.1 (DataView.mem_columns hcolumn)
    rw [DataView.cellColumns_firstColumns] at hcolumn
    exact hfilePlaces column (List.mem_of_mem_take hcolumn)

/-- A disk with a directory where the series `b` of a unit would be. -/
def directoryInTheWay : Disk :=
  ⟨.ofList [(["d"], .dir), (["d", "u"], .dir), (["d", "u", "b"], .dir)]⟩

/-- A view of three columns with a cell each. -/
def threeColumns : DataView where
  orientation := .rows
  columns := [⟨"a", .long, .empty⟩, ⟨"b", .long, .empty⟩, ⟨"c", .long, .empty⟩]
  keys := [1]
  masks := [[true, true, true]]
  values := [[.long 1, .long 2, .long 3]]
  consistent := by decide

/-- The second column cannot take the place of the directory: the first one is stored, the third
one is not, and beside the directory a hidden file is left. -/
theorem files_of_failed_insert_directoryInTheWay :
    let s := EngineState.start directoryInTheWay
    let s' := (outcome (ofDirectory.insert threeColumns "u") s).2
    (outcome (ofDirectory.insert threeColumns "u") s).1 =
        .error (.task .insert (.io .isADirectory)) ∧
      (s'.store.disk.docAt? ["d", "u", "a"]).isSome = true ∧
      (s'.store.disk.fileAt? ["d", "u", ".b.tmp"]).isSome = true ∧
      s'.store.disk.fileAt? ["d", "u", "c"] = none ∧
      ∃ k < 3, ∃ s'', outcome (ofDirectory.insert (threeColumns.firstColumns k) "u") s =
        (.ok (), s'') ∧
        ∀ r, DirectoryStore.IsShown r →
          s'.store.disk.fileAt? r = s''.store.disk.fileAt? r := by
  intro s s'
  have hworks : ofDirectory.WorksOn s ["d"] :=
    ⟨⟨1, rfl⟩, by decide, by decide, by decide +kernel⟩
  have hrun : (outcome (ofDirectory.insert threeColumns "u") s).1 =
      .error (.task .insert (.io .isADirectory)) := by decide +kernel
  have hfails : outcome (ofDirectory.insert threeColumns "u") s =
      (.error (.task .insert (.io .isADirectory)), s') := outcome_of_fst hrun
  obtain ⟨-, k, hk, s'', hbefore, hsame, -⟩ :=
    (files_of_failed_insert hworks (fun _ => rfl) hfails).2 .insert _ rfl
  exact ⟨hrun, by decide +kernel, by decide +kernel, by decide +kernel, k, hk, s'', hbefore, hsame⟩

end Engine

end KeyedSeries

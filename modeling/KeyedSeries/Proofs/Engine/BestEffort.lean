import KeyedSeries.Proofs.Engine.EachTarget
import KeyedSeries.Proofs.Engine.KeyDeletion

/-!
# Removals that go on after a failure

The targets of a removal are the files that its paths resolve to, each of them once and in
ascending order (`KeyedSeries.Engine.ResolvesTo`). A removal that does not clear its unit has an
effect on each of them, whatever becomes of the others: **it changes the targets that do not fail
and that it is meant for, and nothing else, and it fails with the failure of the first target that
does** (`KeyedSeries.Engine.treated_of_delete`). This holds whatever stands at the targets, and
also where the calls of the store are made to fail.

A file that goes is not in the way of the targets below it, since its turn comes first. On the
other hand a document with records to remove has to be saved, and that fails where the name of its
hidden file is too long (`KeyedSeries.Engine.failures_of_delete`).
-/

namespace KeyedSeries

open Disk FilePath

namespace Engine

variable {e : Engine DirectoryStore} {s : EngineState DirectoryStore} {root base : Place}
  {unit : String} {paths : List String} {ranges : List KeyRange} {tags : Option TagFilter}
  {chunkSize : Nat}

/-! ### Resolving paths -/

/-- A path that resolves: a glob, or one whose segments can be the names of entries. -/
def IsResolvable (path : String) : Prop :=
  Glob.isGlob path = true ∨
    Location.segments path ≠ [] ∧ ∀ n ∈ Location.segments path, isEntryName n = true

instance (path : String) : Decidable (IsResolvable path) := by
  unfold IsResolvable
  infer_instance

/-- The places of the files that a path resolves to: of all files that a glob matches, or of the
file of the path, be it there or not. -/
inductive ResolvesTo (d : Disk) (base : Place) (path : String) : Place → Prop
  /-- A glob matches the path of a series. -/
  | glob {names : List String} (hglob : Glob.isGlob path = true) (hname : IsSeriesName names)
    (hfile : (d.fileAt? (base ++ names)).isSome = true)
    (haccepts : Glob.accepts path (Catalog.pathOf names) = true) :
    ResolvesTo d base path (base ++ names)
  /-- Any other path is that of one file. -/
  | plain (hplain : Glob.isGlob path = false) :
    ResolvesTo d base path (base ++ Location.segments path)

/-- The targets of a path. -/
def targetsOfPath (d : Disk) (base : Place) (path : String) : List Target :=
  if Glob.isGlob path then
    globbed (ofPlace base) path (DirectoryStore.listFiles d (ofPlace base) true)
  else [⟨path, ofPlace (base ++ Location.segments path)⟩]

/-- The targets of a path are those that it resolves to. -/
theorem mem_targetsOfPath {d : Disk} (ht : d.IsPlainTree) (hbase : ∀ n ∈ base, isEntryName n = true)
    {path : String} (hpath : IsResolvable path) {file : FilePath} :
    (∃ t ∈ targetsOfPath d base path, t.file = file) ↔
      ∃ q, (∀ n ∈ q, isEntryName n = true) ∧ ResolvesTo d base path q ∧ file = ofPlace q := by
  rw [targetsOfPath]
  by_cases hglob : Glob.isGlob path = true
  · rw [if_pos hglob, mem_globbed_listFiles ht hbase]
    constructor
    · rintro ⟨names, hname, hthere, haccepts, hfile⟩
      exact ⟨base ++ names, fun n hn => (ht.fits_of_isSome_fileAt? hthere n hn).isEntryName,
        .glob hglob hname hthere haccepts, hfile⟩
    · rintro ⟨q, -, hresolves, rfl⟩
      cases hresolves with
      | glob _ hname hthere haccepts => exact ⟨_, hname, hthere, haccepts, rfl⟩
      | plain hplain =>
        rw [hglob] at hplain
        cases hplain
  · rw [if_neg hglob]
    have hsegments := (hpath.resolve_left hglob).2
    have hnames : ∀ n ∈ base ++ Location.segments path, isEntryName n = true :=
      List.forall_mem_append.mpr ⟨hbase, hsegments⟩
    constructor
    · rintro ⟨t, hmem, rfl⟩
      rw [List.mem_singleton.mp hmem]
      exact ⟨_, hnames, .plain (by simpa using hglob), rfl⟩
    · rintro ⟨q, -, hresolves, rfl⟩
      cases hresolves with
      | glob hisGlob => exact absurd hisGlob hglob
      | plain => exact ⟨_, List.mem_singleton_self _, rfl⟩

/-- What is found for paths that resolve are the targets of all of them. -/
theorem outcome_targetsOf_of_resolvable
    (hlist : e.store.list = (DirectoryStore.store chunkSize).list)
    (hopen : s.store.closed = false) (hbase : ∀ n ∈ base, isEntryName n = true)
    (hpaths : ∀ path ∈ paths, IsResolvable path) (task : Task) (listing : Option (List FilePath))
    (hlisting : ∀ files, listing = some files →
      files = DirectoryStore.listFiles s.store.disk (ofPlace base) true) :
    outcome (e.targetsOf task (ofPlace base) listing paths) s =
      (.ok (paths.flatMap (targetsOfPath s.store.disk base)), s) := by
  induction paths generalizing listing with
  | nil => rfl
  | cons path rest ih =>
    obtain ⟨hpath, hrest⟩ := List.forall_mem_cons.mp hpaths
    have hfiles : outcome (callFor task (e.store.list (ofPlace base) true)) s =
        (.ok (DirectoryStore.listFiles s.store.disk (ofPlace base) true), s) := by
      rw [outcome_callFor, hlist, DirectoryStore.outcome_list _ _ _ hopen]
      rfl
    have hglobs := ih hrest (some (DirectoryStore.listFiles s.store.disk (ofPlace base) true))
      (by simp)
    rw [targetsOf, List.flatMap_cons, targetsOfPath]
    split
    · cases listing with
      | none => simp only [outcome_bind, hfiles, hglobs, outcome_pure]
      | some files =>
        rw [hlisting files rfl]
        simp only [outcome_bind, hglobs, outcome_pure]
    · next hglob =>
      obtain ⟨hne, hsegments⟩ := hpath.resolve_left hglob
      have hfile := (Location.fileBelow_eq_ok_iff hbase).mpr ⟨hne, hsegments, rfl⟩
      rw [outcome_bind, outcome_known, hfile]
      simp only [outcome_bind, ih hrest listing hlisting, outcome_pure, List.singleton_append]

/-- The places of targets: those that paths resolve to, in ascending order. -/
structure Resolved (d : Disk) (base : Place) (paths : List String) (places : List Place) :
    Prop where
  /-- They go by ascending components. -/
  ascending : places.Pairwise fun p q => compare p q = .lt
  /-- They are those that the paths resolve to. -/
  mem_iff : ∀ q, q ∈ places ↔ ∃ path ∈ paths, ResolvesTo d base path q

/-- What is found at a place that a path resolves to is a series file, or the file of the path. -/
theorem ResolvesTo.names {d : Disk} (ht : d.IsPlainTree) (hbase : ∀ n ∈ base, isEntryName n = true)
    {path : String} (hpath : IsResolvable path) {q : Place} (h : ResolvesTo d base path q) :
    (∀ n ∈ q, isEntryName n = true) ∧ ∃ names, IsSeriesName names ∧ q = base ++ names := by
  cases h with
  | glob hglob hname hthere haccepts =>
    exact ⟨fun n hn => (ht.fits_of_isSome_fileAt? hthere n hn).isEntryName, _, hname, rfl⟩
  | plain hplain =>
    obtain ⟨hne, hsegments⟩ := hpath.resolve_left (by simp [hplain])
    exact ⟨List.forall_mem_append.mpr ⟨hbase, hsegments⟩, _, isSeriesName_segments hne, rfl⟩

/-- **Paths that resolve** come to the places that they resolve to. -/
theorem outcome_resolve_of_resolvable
    (hlist : e.store.list = (DirectoryStore.store chunkSize).list)
    (hopen : s.store.closed = false) (ht : s.store.disk.IsPlainTree)
    (hbase : ∀ n ∈ base, isEntryName n = true) (hpaths : ∀ path ∈ paths, IsResolvable path)
    (task : Task) :
    ∃ targets places, outcome (e.resolve task (ofPlace base) paths) s = (.ok targets, s) ∧
      targets.map (·.file) = places.map ofPlace ∧ Resolved s.store.disk base paths places := by
  have hfound := outcome_targetsOf_of_resolvable hlist hopen hbase hpaths task none (by simp)
  have hmem : ∀ file, (∃ t ∈ paths.flatMap (targetsOfPath s.store.disk base), t.file = file) ↔
      ∃ path ∈ paths, ∃ q, (∀ n ∈ q, isEntryName n = true) ∧
        ResolvesTo s.store.disk base path q ∧ file = ofPlace q := by
    intro file
    simp only [List.mem_flatMap]
    constructor
    · rintro ⟨t, ⟨path, hpath, ht'⟩, hfile⟩
      exact ⟨path, hpath, (mem_targetsOfPath ht hbase (hpaths path hpath)).mp ⟨t, ht', hfile⟩⟩
    · rintro ⟨path, hpath, hq⟩
      obtain ⟨t, ht', hfile⟩ := (mem_targetsOfPath ht hbase (hpaths path hpath)).mpr hq
      exact ⟨t, ⟨path, hpath, ht'⟩, hfile⟩
  obtain ⟨places, hfiles, horder, hentry, hplaces⟩ := exists_places fun t ht' => by
    obtain ⟨path, -, q, hq, -, hfile⟩ := (hmem t.file).mp ⟨t, ht', rfl⟩
    exact ⟨q, hq, hfile⟩
  refine ⟨_, places, ?_, hfiles, horder,
    fun q => ⟨fun hq => ?_, fun ⟨path, hpath, hresolves⟩ => ?_⟩⟩
  · rw [resolve, outcome_bind, hfound]
    rfl
  · obtain ⟨path, hpath, q', hq', hresolves, hfile⟩ :=
      (hmem _).mp ((hplaces q (hentry q hq)).mp hq)
    obtain rfl := ofPlace_inj (hentry q hq) hq' hfile
    exact ⟨path, hpath, hresolves⟩
  · have hq := (hresolves.names ht hbase (hpaths path hpath)).1
    exact (hplaces q hq).mpr ((hmem _).mpr ⟨path, hpath, q, hq, hresolves, rfl⟩)

/-! ### Removals -/

/-- An engine over a directory tree that may write, with nothing closed. -/
structure Deletes (e : Engine DirectoryStore) (s : EngineState DirectoryStore) (root : Place) :
    Prop extends e.WorksOn s root where
  /-- It may write. -/
  writable : e.readOnly = false
  /-- It is open. -/
  isOpen : s.closed = false
  /-- So is its store. -/
  storeIsOpen : s.store.closed = false

/-- **A removal that does not clear its unit** treats the places that its paths resolve to. -/
theorem outcome_delete_of_resolvable (h : e.Deletes s root) (hunit : isEntryName unit = true)
    (hpaths : ∀ path ∈ paths, IsResolvable path) (hclear : clearsUnit paths ranges tags = false)
    (fails : FilePath → Option Failure) :
    ∃ places s', Resolved s.store.disk (root ++ [unit]) paths places ∧
      outcome ((e.failingAt fails).delete paths ranges tags unit) s =
        ((outcome (onEach ((e.failingAt fails).treat ranges tags) (places.map ofPlace))
          s.store).1.mapError (.task .delete), s') ∧
      s'.store =
        (outcome (onEach ((e.failingAt fails).treat ranges tags) (places.map ofPlace))
          s.store).2 := by
  obtain ⟨chunkSize, hstore⟩ := h.store
  have hbase := h.isEntryName_unit hunit
  have hroot : (e.failingAt fails).writableRoot = .ok (ofPlace root) := by
    rw [writableRoot, managedRoot, failingAt, h.writable, h.managed]
    rfl
  have hdir := (Location.unitDir_eq_ok_iff h.isEntryName).mpr
    ⟨hunit, rfl⟩
  have hlist : (e.failingAt fails).store.list = (DirectoryStore.store chunkSize).list := by
    show e.store.list = _
    rw [hstore]
  obtain ⟨targets, places, hresolve, hfiles, hresolved⟩ := outcome_resolve_of_resolvable
    (s := { s with locks := s.locks.acquire (.readUnit unit) }) hlist h.storeIsOpen h.isPlainTree
    hbase hpaths .delete
  refine ⟨places, (outcome ((e.failingAt fails).delete paths ranges tags unit) s).2, hresolved,
    outcome_of_fst ?_, ?_⟩
  all_goals
    rw [delete, outcome_bind, outcome_requireOpen, h.isOpen, if_neg Bool.false_ne_true]
    simp only [outcome_bind, outcome_known, hroot, hdir, hclear, Bool.false_eq_true, if_false,
      outcome_guarded, hresolve, outcome_callFor, hfiles]
    rfl

/-- A path that is no glob comes to one place. -/
theorem Resolved.eq_singleton {d : Disk} {path : String} {places : List Place}
    (h : Resolved d base [path] places) (hplain : Glob.isGlob path = false) :
    places = [base ++ Location.segments path] := by
  have hmem : ∀ q, q ∈ places ↔ q = base ++ Location.segments path := by
    intro q
    rw [h.mem_iff]
    constructor
    · rintro ⟨_, hpath, hresolves⟩
      rw [List.mem_singleton.mp hpath] at hresolves
      cases hresolves with
      | glob hglob =>
        rw [hplain] at hglob
        cases hglob
      | plain => rfl
    · rintro rfl
      exact ⟨path, List.mem_singleton_self _, .plain hplain⟩
  have hnodup : places.Nodup := h.ascending.imp ne_of_compare_eq_lt
  refine List.perm_singleton.mp ((List.perm_ext_iff_of_nodup hnodup (by simp)).mpr fun q => ?_)
  rw [hmem, List.mem_singleton]

/-- No calls of the store are made to fail. -/
theorem failingAt_none {σ : Type} (e : Engine σ) : e.failingAt (fun _ => none) = e := by
  have hnone : ∀ files : List FilePath, files.findSome? (fun _ => (none : Option Failure)) = none :=
    fun files => List.findSome?_eq_none_iff.mpr fun _ _ => rfl
  simp only [failingAt, Store.failingAt, hnone]

/-- **A removal at a path that is no glob** treats its place. -/
theorem outcome_delete_of_plain (h : e.Deletes s root) (hunit : isEntryName unit = true)
    {path : String} (hplain : Glob.isGlob path = false) (hpath : IsResolvable path)
    (ranges : List KeyRange) (tags : Option TagFilter) :
    ∃ s', outcome (e.delete [path] ranges tags unit) s =
        ((outcome (e.treat ranges tags (ofPlace (root ++ [unit] ++ Location.segments path)))
          s.store).1.mapError (.task .delete), s') ∧
      s'.store =
        (outcome (e.treat ranges tags (ofPlace (root ++ [unit] ++ Location.segments path)))
          s.store).2 := by
  have hclear : clearsUnit [path] ranges tags = false := by
    have hne : path ≠ String.singleton Glob.star := by
      rintro rfl
      cases hplain
    simp [clearsUnit, hne]
  obtain ⟨places, s', hresolved, hrun, hs'⟩ := outcome_delete_of_resolvable h hunit
    (List.forall_mem_singleton.mpr hpath) hclear fun _ => none
  rw [hresolved.eq_singleton hplain, failingAt_none, List.map_singleton] at hrun hs'
  rw [outcome_onEach_cons] at hrun hs'
  refine ⟨s', hrun.trans ?_, hs'⟩
  rcases outcome (e.treat ranges tags (ofPlace (root ++ [unit] ++ Location.segments path))) s.store
    with ⟨_ | _, t⟩ <;> rfl

/-- Where nothing is hidden no hidden file is in the way of a document. -/
theorem entry?_draft_of_shown {d : Disk}
    (hshown : ∀ names, (d.entry? (base ++ names)).isSome = true →
      names.any DirectoryStore.isHidden = false)
    {names : List String} (hne : names ≠ []) {up : Place} {name : String}
    (hq : base ++ names = up ++ [name]) :
    d.entry? (up ++ [DirectoryStore.draftName name]) = none := by
  obtain ⟨rest, last, rfl⟩ := (List.eq_nil_or_concat' names).resolve_left hne
  rw [← List.append_assoc] at hq
  obtain ⟨rfl, -⟩ := List.append_inj' hq rfl
  rw [← Option.not_isSome_iff_eq_none, List.append_assoc]
  intro hthere
  have hhidden := hshown _ hthere
  simp [DirectoryStore.isHidden, DirectoryStore.draftName] at hhidden

/-- **A removal goes on after a failure.** In the directory of the unit nothing is hidden, and the
documents hold what is written exactly. The targets are the places that the paths resolve to, in
ascending order. Those that do not fail are removed or trimmed if the removal is meant for them, and
nothing else changes; the result is the failure of the first target that fails, as one of the
task. -/
theorem treated_of_delete (h : e.Deletes s root) (hunit : isEntryName unit = true)
    (hpaths : ∀ path ∈ paths, IsResolvable path) (hclear : clearsUnit paths ranges tags = false)
    (hshown : ∀ names, (s.store.disk.entry? (root ++ [unit] ++ names)).isSome = true →
      names.any DirectoryStore.isHidden = false)
    (hexact : ∀ names doc, s.store.disk.docAt? (root ++ [unit] ++ names) = some doc → doc.IsExact)
    (fails : FilePath → Option Failure) :
    ∃ places r s', Resolved s.store.disk (root ++ [unit]) paths places ∧
      outcome ((e.failingAt fails).delete paths ranges tags unit) s =
        (r.mapError (.task .delete), s') ∧
      Treated fails ranges tags s.store.disk places s'.store.disk r := by
  obtain ⟨chunkSize, hstore⟩ := h.store
  have hbase := h.isEntryName_unit hunit
  obtain ⟨places, s', hresolved, hrun, hs'⟩ :=
    outcome_delete_of_resolvable h hunit hpaths hclear fails
  have hnames : ∀ q ∈ places, (∀ n ∈ q, isEntryName n = true) ∧
      ∃ names, IsSeriesName names ∧ q = root ++ [unit] ++ names := by
    intro q hq
    obtain ⟨path, hpath, hresolves⟩ := (hresolved.mem_iff q).mp hq
    exact hresolves.names h.isPlainTree hbase (hpaths path hpath)
  obtain ⟨r, d', htreat, htreated⟩ := treated_of_onEach fails ranges tags hstore
    h.storeIsOpen h.isPlainTree
    (fun q hq => ⟨by obtain ⟨-, names, -, rfl⟩ := hnames q hq; simp, (hnames q hq).1⟩)
    (hresolved.ascending.imp not_prefix_of_compare_eq_lt) (fun _ q hq up name doc hsplit hdoc => by
      obtain ⟨-, names, hname, rfl⟩ := hnames q hq
      exact ⟨hexact names doc hdoc, entry?_draft_of_shown hshown hname.ne_nil hsplit⟩)
  rw [htreat] at hrun hs'
  exact ⟨places, r, s', hresolved, hrun, hs' ▸ htreated⟩

theorem deletes_ofDirectory {d : Disk} (ht : d.IsPlainTree) :
    ofDirectory.Deletes (.start d) ["d"] where
  store := worksOn_twoSeries.store
  managed := worksOn_twoSeries.managed
  isEntryName := worksOn_twoSeries.isEntryName
  isPlainTree := ht
  writable := rfl
  isOpen := rfl
  storeIsOpen := rfl

theorem shown_twoSeries {names : List String}
    (h : (twoSeries.entry? (["d"] ++ ["u"] ++ names)).isSome = true) :
    names.any DirectoryStore.isHidden = false := by
  obtain ⟨entry, hentry⟩ := Option.isSome_iff_exists.mp h
  rw [entry?_of_ne_nil _ (by simp)] at hentry
  have hmem := OrderedMap.mem_of_get?_ofList hentry
  simp only [List.mem_cons, Prod.mk.injEq, List.cons_append, List.nil_append, List.cons.injEq,
    reduceCtorEq, and_false, false_and, false_or, List.not_mem_nil, or_false, true_and] at hmem
  rcases hmem with ⟨rfl, -⟩ | ⟨rfl, -⟩ | ⟨rfl, -⟩ <;> decide

/-- Of three targets the first one is trimmed. It is in the way of the second one, and the calls
for the third one are made to fail. -/
theorem treated_of_delete_threeTargets :
    let s := EngineState.start twoSeries
    let ranges : List KeyRange := [⟨2, Key.top⟩]
    let fails : FilePath → Option Failure := fun file =>
      if file = ⟨"/d/u/b"⟩ then some (.io .other) else none
    ∃ places s', Resolved twoSeries ["d", "u"] ["*", "a.c"] places ∧
      outcome ((ofDirectory.failingAt fails).delete ["*", "a.c"] ranges none "u") s =
        (.error (.task .delete (.io .notADirectory)), s') ∧
      Treated fails ranges none twoSeries places s'.store.disk (.error (.io .notADirectory)) ∧
      s'.store.disk.docAt? ["d", "u", "a"] = some (twoKeys.outside ranges) ∧
      s'.store.disk.docAt? ["d", "u", "b"] = some twoKeys := by
  intro s ranges fails
  have hdeletes : ofDirectory.Deletes s ["d"] := deletes_ofDirectory worksOn_twoSeries.isPlainTree
  obtain ⟨places, r, s', hresolved, hrun, htreated⟩ := treated_of_delete hdeletes
    (by decide : isEntryName "u" = true)
    (by decide : ∀ path ∈ ["*", "a.c"], IsResolvable path)
    (by decide : clearsUnit ["*", "a.c"] ranges none = false) (fun _ h => shown_twoSeries h)
    (fun _ _ hdoc => eq_twoKeys_of_docAt? hdoc ▸ isStorable_twoKeys.isExact) fails
  have hfailure : (outcome ((ofDirectory.failingAt fails).delete ["*", "a.c"] ranges none "u")
      s).1 = .error (.task .delete (.io .notADirectory)) := by decide +kernel
  have hdisk : ∀ q doc, (outcome ((ofDirectory.failingAt fails).delete ["*", "a.c"] ranges none "u")
      s).2.store.disk.docAt? q = some doc → s'.store.disk.docAt? q = some doc := by
    intro q doc hdoc
    rwa [hrun] at hdoc
  obtain rfl : r = .error (.io .notADirectory) := by
    rw [hrun] at hfailure
    cases r with
    | ok => cases hfailure
    | error failure =>
      cases hfailure
      rfl
  exact ⟨places, s', hresolved, hrun, htreated, hdisk _ _ (by decide +kernel),
    hdisk _ _ (by decide +kernel)⟩

/-- A disk with a third series that has too long a name for a hidden file beside it. -/
def longNamed : Disk := twoSeries.put ["d", "u", longName] (.file twoKeys.bytes)

theorem isPlainTree_longNamed : longNamed.IsPlainTree := by
  have ht : twoSeries.IsPlainTree := worksOn_twoSeries.isPlainTree
  refine ht.put_file (q := ["d", "u"]) rfl isSegment_longName.fits (fun h => ?_) _
  -- Of the entries that are there only files have such long paths.
  rw [entry?_of_ne_nil _ (by simp)] at h
  have hmem := OrderedMap.mem_of_get?_ofList h
  simp at hmem

/-- A document is not trimmed if its name is too long for a hidden file. -/
theorem delete_longName :
    longNamed.docAt? ["d", "u", longName] = some twoKeys ∧
      (outcome (ofDirectory.delete [longName] [⟨2, Key.top⟩] none "u") (.start longNamed)).1 =
        .error (.task .delete (.io .invalidFilename)) := by
  have hfile : longNamed.fileAt? ["d", "u", longName] = some twoKeys.bytes := by
    rw [fileAt?_eq_some_iff, longNamed, entry?_put (by simp), if_pos rfl]
  have hdoc : longNamed.docAt? ["d", "u", longName] = some twoKeys := by
    rw [docAt?, hfile, Option.bind_some, Document.ofBytes?_bytes isStorable_twoKeys.isExact]
  have hsegments : Location.segments longName = [longName] :=
    Location.segments_eq_singleton (longName_ne (by decide)) (notMem_longName (by decide))
  have hplain : Glob.isGlob longName = false := by
    simpa [Glob.isGlob] using notMem_longName (by decide : Glob.star ≠ 'n')
  obtain ⟨s', hrun, -⟩ := outcome_delete_of_plain (deletes_ofDirectory isPlainTree_longNamed)
    (by decide : isEntryName "u" = true) hplain
    (.inr ⟨by simp [hsegments], by simp [hsegments, isSegment_longName.fits.isEntryName]⟩)
    [⟨2, Key.top⟩] none
  have htrim : outcome (ofDirectory.trimAll none (ofPlace (["d"] ++ ["u"] ++ [longName]))
      [⟨2, Key.top⟩]) (EngineState.start longNamed).store =
        (.error (.io .invalidFilename), (EngineState.start longNamed).store) :=
    outcome_trimAll_of_longDraft rfl rfl isPlainTree_longNamed hdoc rfl
      ⟨2, by decide +kernel, by decide⟩ (by decide +kernel)
  refine ⟨hdoc, ?_⟩
  rw [hrun, hsegments, treat, if_neg (by simp), htrim]
  rfl

/-- No series is found by a name that is too long for an entry. -/
theorem delete_longerName :
    (outcome (ofDirectory.delete [longName ++ longName] [] none "u") (.start twoSeries)).1 =
      .error (.task .delete (.io .invalidFilename)) := by
  have ht : twoSeries.IsPlainTree := worksOn_twoSeries.isPlainTree
  have hplain : Glob.isGlob (longName ++ longName) = false := by
    simpa [Glob.isGlob] using notMem_longerName (by decide : Glob.star ≠ 'n')
  obtain ⟨s', hrun, -⟩ := outcome_delete_of_plain (deletes_ofDirectory ht)
    (by decide : isEntryName "u" = true) hplain
    (.inr ⟨by simp [segments_longerName], by simp [segments_longerName, isEntryName_longerName]⟩)
    [] none
  have hblocked :
      twoSeries.Blocked (["d"] ++ ["u"] ++ [longName ++ longName]) .invalidFilename := by
    refine .tooLong (List.forall_mem_append.mpr ⟨by decide, List.forall_mem_singleton.mpr ?_⟩) rfl
      rfl nameLimit_lt_longerName
    exact notMem_longerName (by decide)
  have huntouched := DirectoryStore.untouched_of_blocked ht
    (List.forall_mem_append.mpr ⟨by decide, List.forall_mem_singleton.mpr isEntryName_longerName⟩)
    hblocked
  have htreat : outcome (ofDirectory.treat [] none
      (ofPlace (["d"] ++ ["u"] ++ [longName ++ longName]))) (EngineState.start twoSeries).store =
        (.error (.io .invalidFilename), (EngineState.start twoSeries).store) :=
    outcome_treat_of_same rfl rfl (fun _ => huntouched.removeOne_eq none) nofun
  rw [hrun, segments_longerName, htreat]
  rfl

/-- **A file above a target, and names that are too long.** A file that is removed is not in the
way of the target below it, although it was there. A document that can be read is not trimmed if its
name is too long for a hidden file, and a path fails if a name of it is too long or has a zero in
it. -/
theorem failures_of_delete :
    twoSeries.IsPlainTree ∧ twoSeries.fileAt? ["d", "u", "a"] = some twoKeys.bytes ∧
      (outcome (ofDirectory.delete ["a", "a.b"] [] none "u") (.start twoSeries)).1 = .ok () ∧
      (outcome (ofDirectory.delete ["a\x00b"] [] none "u") (.start twoSeries)).1 =
        .error (.task .delete (.io .invalidInput)) ∧
      (outcome (ofDirectory.delete [longName ++ longName] [] none "u") (.start twoSeries)).1 =
        .error (.task .delete (.io .invalidFilename)) ∧
      longNamed.IsPlainTree ∧ longNamed.docAt? ["d", "u", longName] = some twoKeys ∧
      (outcome (ofDirectory.delete [longName] [⟨2, Key.top⟩] none "u") (.start longNamed)).1 =
        .error (.task .delete (.io .invalidFilename)) :=
  ⟨worksOn_twoSeries.isPlainTree, by decide +kernel, by decide +kernel, by decide +kernel,
    delete_longerName, isPlainTree_longNamed, delete_longName.1, delete_longName.2⟩

end Engine

end KeyedSeries

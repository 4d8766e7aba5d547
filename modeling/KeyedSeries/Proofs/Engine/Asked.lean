import KeyedSeries.Proofs.Engine.Finding
import KeyedSeries.Proofs.Engine.Stored

/-!
# Series that are asked for

The series of a unit are the files below its directory that are not hidden, by the names
that lead to them. A path asks for the names that are its segments, and a glob for those whose
path it matches (`KeyedSeries.Engine.addresses`). Whatever a tree without links holds, **the
files that are found for paths are those of names that they ask for, and all files that are there
under such names are found**, each of them once (`KeyedSeries.Engine.located_of_resolve`).
-/

namespace KeyedSeries

open Disk FilePath

namespace Engine

variable {e : Engine DirectoryStore} {s s' : EngineState DirectoryStore} {base : Place}
  {paths : List String} {targets : List Target} {chunkSize : Nat}

/-! ### Names -/

/-- Whether paths ask for the series that names lead to. -/
def addresses (paths names : List String) : Bool :=
  paths.any fun path =>
    if Glob.isGlob path then Glob.accepts path (Catalog.pathOf names)
    else Location.segments path == names

theorem addresses_cons (path : String) (paths names : List String) :
    addresses (path :: paths) names = (addresses [path] names || addresses paths names) := by
  simp [addresses]

/-- Names that lead to a series of a unit. -/
structure IsSeriesName (names : List String) : Prop where
  /-- They lead to something below the directory of the unit. -/
  ne_nil : names ≠ []
  /-- No name is hidden. -/
  shown : names.any DirectoryStore.isHidden = false

/-- The segments of a path lead to a series. -/
theorem isSeriesName_segments {path : String} (h : Location.segments path ≠ []) :
    IsSeriesName (Location.segments path) :=
  ⟨h, List.any_eq_false.mpr fun n hn => by simp [Location.isHidden_of_mem_segments hn]⟩

/-- A series is at a place that is not hidden. -/
theorem IsSeriesName.isShown {names : List String} (h : IsSeriesName names) (base : Place) :
    DirectoryStore.IsShown (base ++ names) := by
  intro n hn
  rw [List.getLast?_append_of_ne_nil _ h.ne_nil] at hn
  simpa using List.any_eq_false.mp h.shown n (List.mem_of_getLast? hn)

/-- A place that names lead to is one where a file can be. -/
theorem IsSeriesName.isFilePlace {names : List String} (h : IsSeriesName names)
    (hnames : ∀ n ∈ base ++ names, isEntryName n = true) :
    DirectoryStore.IsFilePlace (base ++ names) := by
  exact ⟨hnames, by simp [h.ne_nil], h.isShown base⟩

/-! ### Finding -/

/-- What is found below a place is what paths ask for. -/
structure Finds (d : Disk) (base : Place) (paths : List String) (targets : List Target) : Prop where
  /-- What is found is the file of names that the paths ask for. -/
  sound : ∀ t ∈ targets, ∃ names, IsSeriesName names ∧ (∀ n ∈ base ++ names, isEntryName n = true) ∧
    addresses paths names = true ∧ t.file = ofPlace (base ++ names)
  /-- All files that they ask for are found. -/
  complete : ∀ names, IsSeriesName names → addresses paths names = true →
    (d.fileAt? (base ++ names)).isSome = true → ∃ t ∈ targets, t.file = ofPlace (base ++ names)

/-- Nothing is asked for, and nothing is found. -/
theorem Finds.nil (d : Disk) (base : Place) : Finds d base [] [] :=
  ⟨nofun, fun _ _ h => absurd h (by simp [addresses])⟩

/-- More is found by one path more. -/
theorem Finds.cons {d : Disk} {path : String} {first : List Target} (h : Finds d base paths targets)
    (hsound : ∀ t ∈ first, ∃ names, IsSeriesName names ∧
      (∀ n ∈ base ++ names, isEntryName n = true) ∧ addresses [path] names = true ∧
        t.file = ofPlace (base ++ names))
    (hcomplete : ∀ names, IsSeriesName names → addresses [path] names = true →
      (d.fileAt? (base ++ names)).isSome = true → ∃ t ∈ first, t.file = ofPlace (base ++ names)) :
    Finds d base (path :: paths) (first ++ targets) := by
  constructor
  · intro t ht
    rcases List.mem_append.mp ht with ht | ht
    · obtain ⟨names, hname, hnames, hasked, hfile⟩ := hsound t ht
      exact ⟨names, hname, hnames, by rw [addresses_cons, hasked, Bool.true_or], hfile⟩
    · obtain ⟨names, hname, hnames, hasked, hfile⟩ := h.sound t ht
      exact ⟨names, hname, hnames, by rw [addresses_cons, hasked, Bool.or_true], hfile⟩
  · intro names hname hasked hthere
    rw [addresses_cons, Bool.or_eq_true] at hasked
    rcases hasked with hasked | hasked
    · obtain ⟨t, ht, hfile⟩ := hcomplete names hname hasked hthere
      exact ⟨t, List.mem_append_left _ ht, hfile⟩
    · obtain ⟨t, ht, hfile⟩ := h.complete names hname hasked hthere
      exact ⟨t, List.mem_append_right _ ht, hfile⟩

theorem mem_globbed_iff {dir : FilePath} {glob : String} {files : List FilePath} {t : Target} :
    t ∈ globbed dir glob files ↔ t.file ∈ files ∧
      Location.seriesPath? dir t.file = some t.path ∧ Glob.accepts glob t.path = true := by
  rw [globbed, List.mem_filterMap]
  constructor
  · rintro ⟨file, hfile, ht⟩
    split at ht
    · next path hpath =>
      split at ht
      · next haccepts =>
        cases ht
        exact ⟨hfile, hpath, haccepts⟩
      · cases ht
    · cases ht
  · rintro ⟨hfile, hpath, haccepts⟩
    exact ⟨t.file, hfile, by simp [hpath, haccepts]⟩

/-- On a tree without links they are the files of series whose paths the glob matches. -/
theorem mem_globbed_listFiles {d : Disk} (ht : d.IsPlainTree)
    (hbase : ∀ n ∈ base, isEntryName n = true) {glob : String} {file : FilePath} :
    (∃ t ∈ globbed (ofPlace base) glob (DirectoryStore.listFiles d (ofPlace base) true),
        t.file = file) ↔
      ∃ names, IsSeriesName names ∧ (d.fileAt? (base ++ names)).isSome = true ∧
        Glob.accepts glob (Catalog.pathOf names) = true ∧ file = ofPlace (base ++ names) := by
  constructor
  · rintro ⟨t, hmem, rfl⟩
    obtain ⟨hlisted, hpath, haccepts⟩ := mem_globbed_iff.mp hmem
    obtain ⟨names, hne, hshown, hthere, hfile⟩ :=
      (DirectoryStore.mem_listFiles ht hbase).mp hlisted
    rw [hfile, seriesPath?_ofPlace (ht.fits_of_isSome_fileAt? hthere) hne,
      Option.some.injEq] at hpath
    exact ⟨names, ⟨hne, hshown⟩, hthere, hpath ▸ haccepts, hfile⟩
  · rintro ⟨names, ⟨hne, hshown⟩, hthere, haccepts, rfl⟩
    have hlisted := (DirectoryStore.mem_listFiles ht hbase).mpr ⟨names, hne, hshown, hthere, rfl⟩
    have hpath := seriesPath?_ofPlace (ht.fits_of_isSome_fileAt? hthere) hne
    exact ⟨⟨Catalog.pathOf names, ofPlace (base ++ names)⟩,
      mem_globbed_iff.mpr ⟨hlisted, hpath, haccepts⟩, rfl⟩

/-- A glob finds the files that are listed and whose paths it matches. -/
theorem Finds.cons_glob {d : Disk} (ht : d.IsPlainTree) (hbase : ∀ n ∈ base, isEntryName n = true)
    {glob : String} (hglob : Glob.isGlob glob = true) (h : Finds d base paths targets) :
    Finds d base (glob :: paths)
      (globbed (ofPlace base) glob (DirectoryStore.listFiles d (ofPlace base) true) ++
        targets) := by
  have hasked : ∀ names, addresses [glob] names = Glob.accepts glob (Catalog.pathOf names) := by
    simp [addresses, hglob]
  refine h.cons (fun t hmem => ?_) fun names hname haccepts hthere => ?_
  · obtain ⟨names, hname, hthere, haccepts, hfile⟩ :=
      (mem_globbed_listFiles ht hbase).mp ⟨t, hmem, rfl⟩
    exact ⟨names, hname, fun n hn => (ht.fits_of_isSome_fileAt? hthere n hn).isEntryName,
      by rw [hasked, haccepts], hfile⟩
  · rw [hasked] at haccepts
    exact (mem_globbed_listFiles ht hbase).mpr ⟨names, hname, hthere, haccepts, rfl⟩

/-- A path that is no glob finds its own file, be it there or not. -/
theorem Finds.cons_plain {d : Disk} (hbase : ∀ n ∈ base, isEntryName n = true) {path : String}
    (hglob : ¬Glob.isGlob path = true) {file : FilePath}
    (hfile : Location.fileBelow (ofPlace base) path = .ok file) (h : Finds d base paths targets) :
    Finds d base (path :: paths) (⟨path, file⟩ :: targets) := by
  obtain ⟨hne, hsegments, rfl⟩ := (Location.fileBelow_eq_ok_iff hbase).mp hfile
  have hasked : ∀ names, addresses [path] names = (Location.segments path == names) := by
    simp [addresses, hglob]
  show Finds d base (path :: paths) ([⟨path, ofPlace (base ++ Location.segments path)⟩] ++ targets)
  refine h.cons (fun t hmem => ?_) fun names _ hsame _ => ?_
  · rw [List.mem_singleton.mp hmem]
    refine ⟨Location.segments path, isSeriesName_segments hne, ?_, by simp [hasked], rfl⟩
    exact List.forall_mem_append.mpr ⟨hbase, hsegments⟩
  · rw [hasked, beq_iff_eq] at hsame
    exact ⟨_, List.mem_singleton_self _, by rw [hsame]⟩

/-- What is found for paths is what they ask for. -/
theorem finds_of_targetsOf (hstore : e.store = DirectoryStore.store chunkSize)
    (ht : s.store.disk.IsPlainTree) (hbase : ∀ n ∈ base, isEntryName n = true) {task : Task}
    {listing : Option (List FilePath)} (hlisting : ∀ files, listing = some files →
      files = DirectoryStore.listFiles s.store.disk (ofPlace base) true)
    (h : outcome (e.targetsOf task (ofPlace base) listing paths) s = (.ok targets, s')) :
    s' = s ∧ Finds s.store.disk base paths targets := by
  induction paths generalizing listing targets with
  | nil =>
    cases h
    exact ⟨rfl, .nil _ _⟩
  | cons path rest ih =>
    rw [targetsOf] at h
    split at h
    · next hglob =>
      -- The files that are listed now, or were before.
      have hrest : ∀ {targets : List Target}, outcome (e.targetsOf task (ofPlace base)
          (some (DirectoryStore.listFiles s.store.disk (ofPlace base) true)) rest) s =
            (.ok targets, s') → s' = s ∧ Finds s.store.disk base rest targets :=
        fun hrun => ih (by simp) hrun
      cases listing with
      | some files =>
        simp only [outcome_bind_eq_ok_iff, outcome_pure, Prod.mk.injEq, Except.ok.injEq] at h
        obtain ⟨_, _, ⟨rfl, rfl⟩, others, _, hothers, htargets, rfl⟩ := h
        rw [hlisting files rfl] at hothers htargets
        obtain ⟨hsame, hfinds⟩ := hrest hothers
        cases htargets
        exact ⟨hsame, hfinds.cons_glob ht hbase hglob⟩
      | none =>
        simp only [outcome_bind_eq_ok_iff, outcome_callFor_eq_ok_iff, hstore,
          DirectoryStore.outcome_list_eq_ok_iff, outcome_pure, Prod.mk.injEq] at h
        obtain ⟨files, _, ⟨_, ⟨-, rfl, rfl⟩, rfl⟩, others, _, hothers, htargets, rfl⟩ := h
        obtain ⟨hsame, hfinds⟩ := hrest hothers
        cases htargets
        exact ⟨hsame, hfinds.cons_glob ht hbase hglob⟩
    · next hglob =>
      simp only [outcome_bind_eq_ok_iff, outcome_known, outcome_pure, Prod.mk.injEq] at h
      obtain ⟨file, _, ⟨hfile, rfl⟩, others, _, hothers, htargets, rfl⟩ := h
      obtain ⟨hsame, hfinds⟩ := ih hlisting hothers
      cases htargets
      exact ⟨hsame, hfinds.cons_plain hbase hglob hfile⟩

/-! ### Each file once -/

/-- The places that are found. -/
structure Located (d : Disk) (base : Place) (paths : List String) (places : List Place) : Prop where
  /-- No place is found twice. -/
  nodup : places.Nodup
  /-- Files can be at the places, and the names that lead to them are asked for. -/
  sound : ∀ q ∈ places, DirectoryStore.IsFilePlace q ∧
    ∃ names, addresses paths names = true ∧ q = base ++ names
  /-- All files that are asked for are found. -/
  complete : ∀ names, IsSeriesName names → addresses paths names = true →
    (d.fileAt? (base ++ names)).isSome = true → base ++ names ∈ places

/-- **What is found for paths** is what they ask for, each file once. -/
theorem located_of_resolve (hstore : e.store = DirectoryStore.store chunkSize)
    (ht : s.store.disk.IsPlainTree) (hbase : ∀ n ∈ base, isEntryName n = true) {task : Task}
    (h : outcome (e.resolve task (ofPlace base) paths) s = (.ok targets, s')) :
    s' = s ∧ ∃ places : List Place, targets.map (·.file) = places.map ofPlace ∧
      Located s.store.disk base paths places := by
  rw [resolve] at h
  simp only [outcome_bind_eq_ok_iff, outcome_pure, Prod.mk.injEq] at h
  obtain ⟨found, _, hfound, htargets, rfl⟩ := h
  obtain ⟨hsame, hfinds⟩ := finds_of_targetsOf hstore ht hbase (by simp) hfound
  cases htargets
  have hnamed : ∀ {t}, t ∈ found → ∃ names, IsSeriesName names ∧
      (∀ n ∈ base ++ names, isEntryName n = true) ∧ addresses paths names = true ∧
        t.file = ofPlace (base ++ names) := fun ht => hfinds.sound _ ht
  obtain ⟨places, hfiles, horder, hentry, hmem⟩ := exists_places fun t ht => by
    obtain ⟨names, -, hnames, -, hfile⟩ := hnamed ht
    exact ⟨_, hnames, hfile⟩
  refine ⟨hsame, places, hfiles, horder.imp ne_of_compare_eq_lt, fun q hq => ?_,
    fun names hname hasked hthere => ?_⟩
  · obtain ⟨t, ht, hplace⟩ := (hmem q (hentry q hq)).mp hq
    obtain ⟨names, hname, hnames, hasked, hfile⟩ := hnamed ht
    obtain rfl : q = base ++ names := ofPlace_inj (hentry q hq) hnames (hplace.symm.trans hfile)
    exact ⟨hname.isFilePlace hnames, names, hasked, rfl⟩
  · have hfits := ht.fits_of_isSome_fileAt? hthere
    exact (hmem _ fun n hn => (hfits n hn).isEntryName).mpr
      (hfinds.complete names hname hasked hthere)

end Engine

end KeyedSeries

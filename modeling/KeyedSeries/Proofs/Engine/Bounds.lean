import KeyedSeries.Proofs.Engine.Addressing
import KeyedSeries.Proofs.Series.Order

/-!
# What the bounds of an engine cover

Where no root of paths is named, the bounds are looked for in the history: they are the paths
of its first and of its last file. Files go by their names, one after the other, and so do
the series of the history in the schema. **The bounds are the paths of the first and of the
last series that the schema lists**, and nothing is known of them only if there is none; if
every letter of the names comes behind the separator, all paths lie between the two
(`KeyedSeries.Engine.covered_of_bounds`). With a name such as `a-b` they need not: the file
`a/c` comes before `a-b`, but the path `a.c` behind it
(`KeyedSeries.Engine.start_behind_stop`).
-/

namespace KeyedSeries

open Disk FilePath

/-! ### The files below a directory -/

namespace DirectoryStore

/-- The names of the files below a place that are shown, in order. -/
def shownBelow (d : Disk) (place : Place) : List (List String) :=
  (d.below place).filterMap fun (names, e) =>
    match e with
    | .file _ => if names.any isHidden then none else some names
    | _ => none

variable {d : Disk} {place : Place} {names : List String}

/-- All that is shown below a directory is listed. -/
theorem listFiles_eq_map {dir : FilePath} (h : d.dirPlace? dir = some place) :
    listFiles d dir true = (shownBelow d place).map (·.foldl child dir) := by
  rw [listFiles, h, shownBelow, List.map_filterMap]
  refine List.filterMap_congr fun entry _ => ?_
  obtain ⟨names, e⟩ := entry
  cases e with
  | file _ => cases hhidden : names.any isHidden <;> simp [hhidden]
  | dir => rfl
  | link _ => rfl

theorem isSome_fileAt?_of_mem (h : names ∈ shownBelow d place) :
    names ≠ [] ∧ (d.fileAt? (place ++ names)).isSome = true := by
  obtain ⟨⟨names', e⟩, hmem, hshown⟩ := List.mem_filterMap.mp h
  obtain ⟨hne, hentry⟩ := mem_below_iff.mp hmem
  cases e with
  | file content =>
    obtain ⟨-, hnames⟩ := Option.ite_none_left_eq_some.mp hshown
    cases hnames
    exact ⟨hne, by rw [fileAt?_eq_some_iff.mpr hentry]; rfl⟩
  | dir => cases hshown
  | link _ => cases hshown

/-- What is shown goes by the names. -/
theorem pairwise_shownBelow (d : Disk) (place : Place) :
    (shownBelow d place).Pairwise fun a b => compare a b = .lt := by
  refine (List.pairwise_filterMap).mpr ((pairwise_below d place).imp ?_)
  rintro ⟨a, e⟩ ⟨b, e'⟩ hab names hnames names' hnames'
  have hkept : ∀ {x : List String × Entry} {names : List String}, (match x.2 with
      | .file _ => if x.1.any isHidden then none else some x.1
      | _ => none) = some names → names = x.1 := by
    intro x names h
    split at h
    · exact (Option.some.inj (Option.ite_none_left_eq_some.mp h).2).symm
    · cases h
  rw [hkept (x := (a, e)) hnames, hkept (x := (b, e')) hnames']
  exact hab

end DirectoryStore

/-! ### The first and the last one -/

/-- What is in order lies between the first and the last of it. -/
theorem between_of_mem {l : List (List String)} (hl : l.Pairwise fun a b => compare a b = .lt)
    {a : List String} (ha : a ∈ l) : ∃ first last, l.head? = some first ∧ l.getLast? = some last ∧
      first ∈ l ∧ last ∈ l ∧ (compare first a).isLE = true ∧ (compare a last).isLE = true := by
  have hself : (compare a a).isLE = true := by
    have heq : compare a a = .eq := Std.ReflCmp.compare_self
    rw [heq]
    rfl
  have hlt : ∀ {b c : List String}, compare b c = .lt → (compare b c).isLE = true := by
    intro b c hbc
    rw [hbc]
    rfl
  obtain ⟨before, after, rfl⟩ := List.append_of_mem ha
  obtain ⟨-, hafter, hbefore⟩ := List.pairwise_append.mp hl
  obtain ⟨hafter, -⟩ := List.pairwise_cons.mp hafter
  obtain ⟨first, hfirst, hfirstLE⟩ : ∃ first, (before ++ a :: after).head? = some first ∧
      (compare first a).isLE = true := by
    cases before with
    | nil => exact ⟨a, rfl, hself⟩
    | cons b before =>
      exact ⟨b, rfl, hlt (hbefore b List.mem_cons_self a List.mem_cons_self)⟩
  obtain ⟨last, hlast, hlastLE⟩ : ∃ last, (before ++ a :: after).getLast? = some last ∧
      (compare a last).isLE = true := by
    rcases List.eq_nil_or_concat after with rfl | ⟨after, b, rfl⟩
    · exact ⟨a, by rw [List.getLast?_concat], hself⟩
    · refine ⟨b, ?_, hlt (hafter b (by simp))⟩
      rw [List.concat_eq_append, ← List.cons_append, ← List.append_assoc, List.getLast?_concat]
  exact ⟨first, last, hfirst, hlast, List.mem_of_mem_head? hfirst, List.mem_of_getLast? hlast,
    hfirstLE, hlastLE⟩

namespace Engine

variable {e : Engine DirectoryStore} {s s' : EngineState DirectoryStore} {unit : String}
  {chunkSize : Nat}

/-! ### The history -/

/-- The names of the files of the history, in order. -/
def historyNames (e : Engine DirectoryStore) (d : Disk) : List (List String) :=
  match e.roots.history.bind d.dirPlace? with
  | none => []
  | some place => DirectoryStore.shownBelow d place

theorem pairwise_historyNames (e : Engine DirectoryStore) (d : Disk) :
    (e.historyNames d).Pairwise fun a b => compare a b = .lt := by
  rw [historyNames]
  split
  · exact .nil
  · exact DirectoryStore.pairwise_shownBelow d _

/-- The files of the history are listed by their names, and each of them has the path that its
names make. -/
theorem listFiles_history {d : Disk} (ht : d.IsPlainTree) {root : FilePath}
    (hroot : e.roots.history = some root) :
    DirectoryStore.listFiles d root true = (e.historyNames d).map (·.foldl child root) ∧
      ∀ names ∈ e.historyNames d,
        Location.seriesPath? root (names.foldl child root) = some (Catalog.pathOf names) := by
  rw [historyNames, hroot, Option.bind_some]
  cases hplace : d.dirPlace? root with
  | none => exact ⟨by rw [DirectoryStore.listFiles, hplace]; rfl, by simp⟩
  | some place =>
    refine ⟨DirectoryStore.listFiles_eq_map hplace, fun names hnames => ?_⟩
    obtain ⟨hne, hfile⟩ := DirectoryStore.isSome_fileAt?_of_mem hnames
    exact seriesPath?_foldl_child hne fun n hn =>
      (ht.fits_of_isSome_fileAt? hfile n (List.mem_append_right _ hn)).isEntryName

/-- The series of the history among those of a schema. -/
def historyPaths (entries : List SchemaEntry) : List String :=
  (entries.filter (·.isHistory)).map (·.series.path)

theorem historyPaths_withHistory (hstore : e.store = DirectoryStore.store chunkSize)
    (ht : s.store.disk.IsPlainTree) {managed entries : List SchemaEntry}
    (hmanaged : ∀ entry ∈ managed, entry.isHistory = false)
    (h : outcome (e.withHistory managed) s = (.ok entries, s')) :
    historyPaths entries = (e.historyNames s.store.disk).map Catalog.pathOf := by
  have hnone : managed.filter (·.isHistory) = [] :=
    List.filter_eq_nil_iff.mpr fun entry hentry => by simp [hmanaged entry hentry]
  rw [withHistory] at h
  split at h
  · next hroot =>
    cases h
    rw [historyPaths, hnone, historyNames, hroot]
    rfl
  · next root hroot =>
    simp only [outcome_bind_eq_ok_iff, outcome_callFor_eq_ok_iff, hstore,
      DirectoryStore.outcome_list_eq_ok_iff, outcome_pure, Prod.mk.injEq] at h
    obtain ⟨files, _, ⟨_, ⟨-, rfl, rfl⟩, rfl⟩, hentries, -⟩ := h
    cases hentries
    obtain ⟨hlisted, hpaths⟩ := listFiles_history ht hroot
    rw [historyPaths, List.filter_append, hnone, List.nil_append, hlisted, List.filterMap_map]
    have heach : ∀ names ∈ e.historyNames s.store.disk,
        ((fun file => (Location.seriesPath? root file).map fun path =>
          (⟨⟨path, .binary, .empty⟩, true⟩ : SchemaEntry)) ∘ (·.foldl child root)) names =
            some ⟨⟨Catalog.pathOf names, .binary, .empty⟩, true⟩ := fun names hnames => by
      rw [Function.comp_apply, hpaths names hnames]
      rfl
    rw [List.filterMap_congr heach, List.filterMap_eq_map', List.filter_eq_self.mpr (by simp),
      List.map_map]
    rfl

/-- **The series of the history that are listed** are its files, in the order of their names. -/
theorem historyPaths_of_schema (hstore : e.store = DirectoryStore.store chunkSize)
    (ht : s.store.disk.IsPlainTree) {entries : List SchemaEntry}
    (h : outcome (e.schema unit) s = (.ok entries, s')) :
    historyPaths entries = (e.historyNames s.store.disk).map Catalog.pathOf := by
  obtain ⟨managed, t, hrest, hsame, -, hmanaged⟩ := managed_of_schema hstore h
  have hnone : ∀ entry ∈ managed, entry.isHistory = false := by
    cases hmanaged with
    | none => simp
    | files _ _ _ hdescribe _ =>
      intro entry hentry
      obtain ⟨-, hdescribed⟩ := describeAll_eq_ok hstore hdescribe
      obtain ⟨file, -, hdescribes⟩ := hdescribed entry hentry
      exact hdescribes.notHistory
  rw [← hsame] at ht ⊢
  exact historyPaths_withHistory hstore ht hnone hrest

/-! ### The bounds -/

/-- **The bounds that are found** are the paths of the first and of the last file of the
history. -/
theorem bounds_eq_ok (hstore : e.store = DirectoryStore.store chunkSize)
    (ht : s.store.disk.IsPlainTree) {start : Option String} (hstart : start.filter (· ≠ "") = none)
    {found : Bounds} (h : outcome (e.bounds start) s = (.ok found, s')) :
    found.paths.start = (e.historyNames s.store.disk).head?.map Catalog.pathOf ∧
      found.paths.stop = (e.historyNames s.store.disk).getLast?.map Catalog.pathOf := by
  rw [bounds, outcome_bind_eq_ok_iff] at h
  obtain ⟨_, _, hopen, h⟩ := h
  obtain ⟨-, rfl⟩ := outcome_requireOpen_eq_ok_iff.mp hopen
  rw [hstart] at h
  cases hroot : e.roots.history with
  | none =>
    simp only [hroot] at h
    cases h
  | some root =>
    simp only [hroot, outcome_bind_eq_ok_iff, outcome_callFor_eq_ok_iff, hstore, outcome_pure,
      Prod.mk.injEq] at h
    obtain ⟨files, _, ⟨_, hfiles, rfl⟩, hfound, -⟩ := h
    obtain ⟨-, hfiles, -⟩ := DirectoryStore.outcome_look_eq_ok_iff
      (f := fun d => .ok (DirectoryStore.boundsOf d root)) |>.mp hfiles
    cases hfiles
    cases hfound
    obtain ⟨hlisted, hpaths⟩ := listFiles_history ht hroot
    rw [DirectoryStore.boundsOf, hlisted, List.head?_map, List.getLast?_map]
    -- There is a first name if and only if there is a last one.
    rcases List.eq_nil_or_concat (e.historyNames s.store.disk) with hnil | ⟨_, last, hlast⟩
    · rw [hnil]
      exact ⟨rfl, rfl⟩
    · rw [List.concat_eq_append] at hlast
      obtain ⟨first, hfirst⟩ : ∃ first, (e.historyNames s.store.disk).head? = some first :=
        Option.isSome_iff_exists.mp (by rw [List.isSome_head?, hlast]; simp)
      have hstop : (e.historyNames s.store.disk).getLast? = some last := by
        rw [hlast, List.getLast?_concat]
      rw [hfirst, hstop]
      exact ⟨hpaths first (List.mem_of_mem_head? hfirst), hpaths last (List.mem_of_getLast? hstop)⟩

/-- **What the bounds cover**, where no root of paths is named: they are the first and the last
path of the history that the schema lists, in the order of the names of the files. Nothing is
known of a bound only if there is no series of the history; and if every letter of the names
comes behind the separator, every path lies between the bounds. -/
theorem covered_of_bounds (hstore : e.store = DirectoryStore.store chunkSize)
    (ht : s.store.disk.IsPlainTree) {start : Option String} (hstart : start.filter (· ≠ "") = none)
    {found : Bounds} (hbounds : outcome (e.bounds start) s = (.ok found, s'))
    {entries : List SchemaEntry} {s'' : EngineState DirectoryStore}
    (hschema : outcome (e.schema unit) s = (.ok entries, s'')) :
    historyPaths entries = (e.historyNames s.store.disk).map Catalog.pathOf ∧
      ((e.historyNames s.store.disk).Pairwise fun a b => compare a b = .lt) ∧
      found.paths.start = (historyPaths entries).head? ∧
      found.paths.stop = (historyPaths entries).getLast? ∧
      (found.paths.start = none ∨ found.paths.stop = none → historyPaths entries = []) ∧
      ((∀ names ∈ e.historyNames s.store.disk, ∀ n ∈ names, ∀ c ∈ n.toList,
          Location.separator < c) →
        ∀ path ∈ historyPaths entries, ∃ first last, found.paths.start = some first ∧
          found.paths.stop = some last ∧ first ≤ path ∧ path ≤ last) := by
  obtain ⟨hfirst, hlast⟩ := bounds_eq_ok hstore ht hstart hbounds
  have hpaths := historyPaths_of_schema hstore ht hschema
  rw [hfirst, hlast, hpaths]
  refine ⟨rfl, pairwise_historyNames e s.store.disk, List.head?_map.symm, List.getLast?_map.symm,
    ?_, ?_⟩
  · rintro (hnone | hnone) <;> simpa using hnone
  · intro hletters path hpath
    obtain ⟨names, hnames, rfl⟩ := List.mem_map.mp hpath
    obtain ⟨first, last, hhead, hgetLast, -, hmem, hle, hge⟩ :=
      between_of_mem (pairwise_historyNames e s.store.disk) hnames
    exact ⟨_, _, by rw [hhead]; rfl, by rw [hgetLast]; rfl,
      Catalog.pathOf_le (hletters names hnames) hle, Catalog.pathOf_le (hletters last hmem) hge⟩

/-- A disk with the files `a/c` and `b` of a history in `/h`. -/
def twoFiles : Disk :=
  ⟨.ofList [(["h"], .dir), (["h", "a"], .dir), (["h", "a", "c"], .file [1]),
    (["h", "b"], .file [2])]⟩

/-- An engine that shows the history in `/h` and manages nothing. -/
def historyEngine : Engine DirectoryStore :=
  ⟨⟨none, some ⟨"/h"⟩⟩, true, DirectoryStore.store 1⟩

/-- The two paths are the bounds, and lie between them. -/
theorem covered_of_bounds_twoFiles :
    let s : EngineState DirectoryStore := .start twoFiles
    let found : Bounds := ⟨⟨some "a.c", some "b", some "h"⟩, 0, Key.top⟩
    let entries : List SchemaEntry :=
      [⟨⟨"a.c", .binary, .empty⟩, true⟩, ⟨⟨"b", .binary, .empty⟩, true⟩]
    twoFiles.IsPlainTree ∧ (outcome (historyEngine.bounds (some "")) s).1 = .ok found ∧
      (outcome (historyEngine.schema "u") s).1 = .ok entries ∧
      (∀ names ∈ historyEngine.historyNames twoFiles, ∀ n ∈ names, ∀ c ∈ n.toList,
        Location.separator < c) ∧
      ∀ path ∈ historyPaths entries, ∃ first last, found.paths.start = some first ∧
        found.paths.stop = some last ∧ first ≤ path ∧ path ≤ last := by
  intro s found entries
  have htree : twoFiles.IsPlainTree := by decide +kernel
  have hbounds : (outcome (historyEngine.bounds (some "")) s).1 = .ok found := by decide +kernel
  have hschema : (outcome (historyEngine.schema "u") s).1 = .ok entries := by decide +kernel
  have hall : ((historyEngine.historyNames twoFiles).all fun names => names.all fun n =>
      n.toList.all fun c => decide (Location.separator < c)) = true := by decide +kernel
  have hletters : ∀ names ∈ historyEngine.historyNames twoFiles, ∀ n ∈ names, ∀ c ∈ n.toList,
      Location.separator < c := by
    simpa only [List.all_eq_true, decide_eq_true_eq] using hall
  obtain ⟨-, -, -, -, -, hcovered⟩ := covered_of_bounds (e := historyEngine) rfl (s := s) htree
    (by decide) (outcome_of_fst hbounds) (outcome_of_fst hschema)
  exact ⟨htree, hbounds, hschema, hletters, hcovered hletters⟩

/-- A disk with the files `a/c` and `a-b` of a history in `/h`. -/
def letterBelowSeparator : Disk :=
  ⟨.ofList [(["h"], .dir), (["h", "a"], .dir), (["h", "a", "c"], .file [1]),
    (["h", "a-b"], .file [2])]⟩

/-- **A letter that comes before the separator**: the file `a/c` comes before `a-b`, and so the
first bound is `a.c` and the last one `a-b`; but as paths they stand the other way round, and
neither path lies between the bounds. -/
theorem start_behind_stop :
    let s : EngineState DirectoryStore := .start letterBelowSeparator
    let found : Bounds := ⟨⟨some "a.c", some "a-b", some "h"⟩, 0, Key.top⟩
    let entries : List SchemaEntry :=
      [⟨⟨"a.c", .binary, .empty⟩, true⟩, ⟨⟨"a-b", .binary, .empty⟩, true⟩]
    letterBelowSeparator.IsPlainTree ∧ (outcome (historyEngine.bounds none) s).1 = .ok found ∧
      (outcome (historyEngine.schema "u") s).1 = .ok entries ∧ "a-b" < "a.c" ∧
      ∀ path ∈ historyPaths entries, ¬("a.c" ≤ path ∧ path ≤ "a-b") := by
  decide +kernel

end Engine

end KeyedSeries

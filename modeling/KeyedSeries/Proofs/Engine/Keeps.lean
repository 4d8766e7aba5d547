import KeyedSeries.Proofs.DataView.Encoding
import KeyedSeries.Proofs.Engine.Finding

/-!
# What work keeps, whatever comes of it

Work may fail halfway, and what it did before stays done. So a property of the state that
is to hold after any work has to be kept by every part of it
(`KeyedSeries.Keeps`). Here this is said for each way in which work is put together, and
from it **for everything that an engine does**: if the parts of a store keep a property,
so do the operations of the engine that call them.
-/

namespace KeyedSeries

section Action

variable {σ α β : Type} {I : σ → Prop}

/-- A computation keeps a property of the state, whatever comes of it, and its result has
a property, if there is one. -/
def Keeps (I : σ → Prop) (x : Action σ α) (post : α → Prop) : Prop :=
  ∀ s, I s → I (outcome x s).2 ∧ ∀ a, (outcome x s).1 = .ok a → post a

/-- A computation keeps a property of the state, whatever it results in. -/
abbrev KeepsOnly (I : σ → Prop) (x : Action σ α) : Prop := Keeps I x fun _ => True

namespace Keeps

variable {post post' : α → Prop} {x : Action σ α}

theorem pure {a : α} (ha : post a) : Keeps I (Pure.pure a) post :=
  fun s hs => ⟨hs, fun b hb => by cases hb; exact ha⟩

theorem throw {failure : Failure} : Keeps I (throw failure) post := fun _ hs => ⟨hs, nofun⟩

theorem bind {f : α → Action σ β} {final : β → Prop} (hx : Keeps I x post)
    (hf : ∀ a, post a → Keeps I (f a) final) : Keeps I (x >>= f) final := by
  intro s hs
  obtain ⟨hkept, hpost⟩ := hx s hs
  rw [outcome_bind]
  rcases hrun : outcome x s with ⟨failure | a, t⟩
  · rw [hrun] at hkept
    exact ⟨hkept, nofun⟩
  · rw [hrun] at hkept hpost
    exact hf a (hpost a rfl) t hkept

theorem weaken (hx : Keeps I x post) (h : ∀ a, post a → post' a) : Keeps I x post' :=
  fun s hs => ⟨(hx s hs).1, fun a ha => h a ((hx s hs).2 a ha)⟩

theorem only (hx : Keeps I x post) : KeepsOnly I x := hx.weaken fun _ _ => trivial

/-- What two computations keep, one of them keeps. -/
theorem ite {c : Prop} [Decidable c] {y : Action σ α} (hx : c → Keeps I x post)
    (hy : ¬c → Keeps I y post) : Keeps I (if c then x else y) post := by
  split
  · next h => exact hx h
  · next h => exact hy h

end Keeps

end Action

namespace Engine

variable {σ α : Type} {J : σ → Prop} {post : α → Prop}

/-- A property of the state of the store, as one of the state of the engine. -/
def OnStore (J : σ → Prop) (s : EngineState σ) : Prop := J s.store

/-! ### Parts of the work -/

theorem keeps_callFor {task : Task} {action : Action σ α} (h : Keeps J action post) :
    Keeps (OnStore J) (callFor task action) post := by
  intro s hs
  obtain ⟨hkept, hpost⟩ := h s.store hs
  rw [outcome_callFor]
  refine ⟨hkept, fun a ha => hpost a ?_⟩
  cases hresult : (outcome action s.store).1 with
  | error failure =>
    rw [hresult] at ha
    cases ha
  | ok b =>
    rw [hresult] at ha
    cases ha
    rfl

theorem keeps_guarded {g : Guard} {work : Work σ α} (h : Keeps (OnStore J) work post) :
    Keeps (OnStore J) (guarded g work) post := by
  intro s hs
  exact h { s with locks := s.locks.acquire g } hs

theorem keeps_known {I : EngineState σ → Prop} {x : Except Failure α}
    (h : ∀ a, x = .ok a → post a) :
    Keeps I (known x) post := by
  intro s hs
  rw [outcome_known]
  exact ⟨hs, h⟩

theorem keeps_requireOpen {I : EngineState σ → Prop} : KeepsOnly I (requireOpen (σ := σ)) := by
  intro s hs
  rw [outcome_requireOpen]
  exact ⟨hs, fun _ _ => trivial⟩

/-! ### Finding files -/

theorem file_mem_of_mem_globbed {base : FilePath} {glob : String} {files : List FilePath}
    {t : Target} (h : t ∈ globbed base glob files) : t.file ∈ files := by
  obtain ⟨file, hfile, ht⟩ := List.mem_filterMap.mp h
  split at ht
  · split at ht
    · cases ht
      exact hfile
    · cases ht
  · cases ht

section Finding

variable {e : Engine σ} {base : FilePath} {P : FilePath → Prop}

theorem keeps_targetsOf {task : Task} {paths : List String}
    (hlist : Keeps J (e.store.list base true) fun files => ∀ file ∈ files, P file)
    (hplain : ∀ path file, Location.fileBelow base path = .ok file → P file)
    {listing : Option (List FilePath)} (hlisting : ∀ files ∈ listing, ∀ file ∈ files, P file) :
    Keeps (OnStore J) (e.targetsOf task base listing paths) fun targets =>
      ∀ t ∈ targets, P t.file := by
  induction paths generalizing listing with
  | nil => exact .pure (by simp)
  | cons path rest ih =>
    have hglobbed : ∀ {files : List FilePath}, (∀ file ∈ files, P file) →
        Keeps (OnStore J) (do
          return globbed base path files ++ (← e.targetsOf task base (some files) rest))
          fun targets => ∀ t ∈ targets, P t.file := by
      intro files hfiles
      refine (ih (by simpa using hfiles)).bind fun targets htargets => .pure fun t ht => ?_
      rcases List.mem_append.mp ht with ht | ht
      · exact hfiles _ (file_mem_of_mem_globbed ht)
      · exact htargets t ht
    rw [targetsOf]
    split
    · split
      · exact hglobbed (hlisting _ rfl)
      · exact (keeps_callFor hlist).bind fun files hfiles => hglobbed hfiles
    · refine (keeps_known fun file hfile => hplain path file hfile).bind fun file hfile => ?_
      exact (ih hlisting).bind fun targets htargets =>
        .pure (List.forall_mem_cons.mpr ⟨hfile, htargets⟩)

/-- **The files that are found** for paths have a property that those of a listing have,
and those of paths that are no globs. -/
theorem keeps_resolve {task : Task} {paths : List String}
    (hlist : Keeps J (e.store.list base true) fun files => ∀ file ∈ files, P file)
    (hplain : ∀ path file, Location.fileBelow base path = .ok file → P file) :
    Keeps (OnStore J) (e.resolve task base paths) fun targets => ∀ t ∈ targets, P t.file := by
  rw [resolve]
  refine (keeps_targetsOf hlist hplain (by simp)).bind fun targets htargets => .pure ?_
  exact fun t ht => htargets t (mem_of_mem_distinct ht)

end Finding

/-! ### Reading -/

/-- What the reading parts of a store keep. -/
structure StoreReads (store : Store σ) (J : σ → Prop) : Prop where
  /-- Reading a file keeps it. -/
  read : ∀ file filter ranges isHistory, KeepsOnly J (store.read file filter ranges isHistory)
  /-- Listing files keeps it. -/
  list : ∀ dir recursive, KeepsOnly J (store.list dir recursive)
  /-- Describing a series keeps it. -/
  describe : ∀ file, KeepsOnly J (store.describe file)
  /-- Searching for bounds keeps it. -/
  bounds : ∀ dir, KeepsOnly J (store.bounds dir)

section Reading

variable {e : Engine σ}

theorem keeps_resolve_only (h : StoreReads e.store J) (task : Task) (base : FilePath)
    (paths : List String) : KeepsOnly (OnStore J) (e.resolve task base paths) :=
  (keeps_resolve (P := fun _ => True) ((h.list base true).weaken fun _ _ _ _ => trivial)
    fun _ _ _ => trivial).only

theorem keeps_readAll (h : StoreReads e.store J) (filter : Option TagFilter)
    (ranges : List KeyRange) (isHistory : Bool) (targets : List Target) :
    KeepsOnly (OnStore J) (e.readAll filter ranges isHistory targets) := by
  induction targets with
  | nil => exact .pure trivial
  | cons t rest ih =>
    rw [readAll]
    refine (keeps_callFor (h.read _ _ _ _)).bind fun _ _ => ?_
    exact ih.bind fun _ _ => .pure trivial

theorem keeps_describeAll (h : StoreReads e.store J) (base : FilePath) (files : List FilePath) :
    KeepsOnly (OnStore J) (e.describeAll base files) := by
  induction files with
  | nil => exact .pure trivial
  | cons file rest ih =>
    rw [describeAll]
    split
    · exact ih
    · refine (keeps_callFor (h.describe file)).bind fun info _ => ?_
      split
      · exact ih.bind fun _ _ => .pure trivial
      · exact .throw

theorem keeps_projectHistory (h : StoreReads e.store J) (paths : List String)
    (tags : Option TagFilter) (filter : Option Filter) :
    KeepsOnly (OnStore J) (e.projectHistory paths tags filter) := by
  rw [projectHistory]
  refine .ite (fun _ => .pure trivial) fun _ => ?_
  split
  · refine .ite (fun _ => .pure trivial) fun _ => ?_
    refine (keeps_resolve_only h _ _ _).bind fun targets _ => ?_
    exact (keeps_readAll h _ _ _ _).bind fun _ _ => .pure trivial
  · exact .throw

/-- **A projection keeps** what the reading parts of its store keep. -/
theorem keeps_project (h : StoreReads e.store J) (paths : List String) (tags : Option TagFilter)
    (filter : Option Filter) (unit : String) (isHistory : Bool) :
    KeepsOnly (OnStore J) (e.project paths tags filter unit isHistory) := by
  rw [project]
  refine keeps_requireOpen.bind fun _ _ => ?_
  refine .ite (fun _ => keeps_projectHistory h _ _ _) fun _ => ?_
  refine .ite (fun _ => .pure trivial) fun _ => ?_
  refine (keeps_known fun _ _ => trivial).bind fun root _ => ?_
  refine (keeps_known fun _ _ => trivial).bind fun base _ => ?_
  refine (keeps_guarded (keeps_resolve_only h _ _ _)).bind fun targets _ => ?_
  exact (keeps_guarded (keeps_readAll h _ _ _ _)).bind fun _ _ => .pure trivial

/-- The series of the history come behind those that are managed. -/
def withHistory (e : Engine σ) (managed : List SchemaEntry) : Work σ (List SchemaEntry) :=
  match e.roots.history with
  | none => pure managed
  | some root => do
    let files ← callFor .schema (e.store.list root true)
    return managed ++ files.filterMap fun file =>
      (Location.seriesPath? root file).map fun path => ⟨⟨path, .binary, .empty⟩, true⟩

/-- The schema is that of the unit with the history behind it. -/
theorem schema_eq (e : Engine σ) (unit : String) : e.schema unit = (do
    requireOpen
    match e.roots.managed with
    | none => e.withHistory []
    | some root => do
      let base ← known (Location.unitDir root unit)
      let managed ← guarded (.readUnit unit) do
        let files ← callFor .schema (e.store.list base true)
        e.describeAll base files
      e.withHistory managed) := by
  rw [schema]
  cases e.roots.managed <;> rfl

/-- The schema keeps what the reading parts of the store keep. -/
theorem keeps_schema (h : StoreReads e.store J) (unit : String) :
    KeepsOnly (OnStore J) (e.schema unit) := by
  have hhistory : ∀ managed, KeepsOnly (OnStore J) (e.withHistory managed) := by
    intro managed
    rw [withHistory]
    split
    · exact .pure trivial
    · exact (keeps_callFor (h.list _ _)).bind fun _ _ => .pure trivial
  rw [schema_eq]
  refine keeps_requireOpen.bind fun _ _ => ?_
  split
  · exact hhistory []
  · next root hroot =>
    refine (keeps_known fun _ _ => trivial).bind fun base _ => ?_
    have hmanaged : KeepsOnly (OnStore J) (do
        let files ← callFor .schema (e.store.list base true)
        e.describeAll base files) :=
      (keeps_callFor (h.list _ _)).bind fun files _ => keeps_describeAll h base files
    exact (keeps_guarded hmanaged).bind fun managed _ => hhistory managed

/-- And so do the bounds. -/
theorem keeps_bounds (h : StoreReads e.store J) (start : Option String) :
    KeepsOnly (OnStore J) (e.bounds start) := by
  rw [bounds]
  refine keeps_requireOpen.bind fun _ _ => ?_
  split
  · exact .pure trivial
  · split
    · exact (keeps_callFor (h.bounds _)).bind fun _ _ => .pure trivial
    · exact .throw

end Reading

/-! ### Writing -/

section Writing

variable {e : Engine σ}

/-- The others are worked on whatever came of the first file. -/
theorem outcome_onEach_cons (f : FilePath → Action σ Unit) (file : FilePath) (rest : List FilePath)
    (s : σ) : outcome (onEach f (file :: rest)) s =
      let others := outcome (onEach f rest) (outcome (f file) s).2
      (match (outcome (f file) s).1 with
        | .error failure => .error failure
        | .ok () => others.1, others.2) := by
  unfold outcome
  rw [onEach]
  rcases hfirst : f file s with ⟨_ | _, t⟩ <;> simp only [hfirst] <;> rfl

/-- The other ranges are trimmed whatever came of the first one. -/
theorem outcome_trimAll_cons (e : Engine σ) (filter : Option TagFilter) (file : FilePath)
    (range : KeyRange) (rest : List KeyRange) (s : σ) :
    outcome (e.trimAll filter file (range :: rest)) s =
      let first := outcome (e.store.trim [file] filter range) s
      let others := outcome (e.trimAll filter file rest) first.2
      (match first.1 with
        | .error failure => .error failure
        | .ok () => others.1, others.2) := by
  unfold outcome
  rw [trimAll]
  rcases hfirst : e.store.trim [file] filter range s with ⟨_ | _, t⟩ <;> simp only [hfirst] <;> rfl

/-- Work on several files succeeds if it does on the first one, and then on the others. -/
theorem outcome_onEach_cons_eq_ok_iff {f : FilePath → Action σ Unit} {file : FilePath}
    {rest : List FilePath} {s t : σ} : outcome (onEach f (file :: rest)) s = (.ok (), t) ↔
      ∃ t', outcome (f file) s = (.ok (), t') ∧ outcome (onEach f rest) t' = (.ok (), t) := by
  rw [outcome_onEach_cons]
  rcases outcome (f file) s with ⟨_ | u, t'⟩
  · simp
  · simp [Prod.ext_iff]

/-- Trimming by several ranges succeeds if it does by the first one, and then by the others. -/
theorem outcome_trimAll_cons_eq_ok_iff {filter : Option TagFilter} {file : FilePath}
    {range : KeyRange} {rest : List KeyRange} {s t : σ} :
    outcome (e.trimAll filter file (range :: rest)) s = (.ok (), t) ↔
      ∃ t', outcome (e.store.trim [file] filter range) s = (.ok (), t') ∧
        outcome (e.trimAll filter file rest) t' = (.ok (), t) := by
  rw [outcome_trimAll_cons]
  rcases outcome (e.store.trim [file] filter range) s with ⟨_ | u, t'⟩
  · simp
  · simp [Prod.ext_iff]

theorem keeps_onEach {f : FilePath → Action σ Unit} {files : List FilePath}
    (h : ∀ file ∈ files, KeepsOnly J (f file)) : KeepsOnly J (onEach f files) := by
  induction files with
  | nil => exact .pure trivial
  | cons file rest ih =>
    obtain ⟨hfile, hrest⟩ := List.forall_mem_cons.mp h
    intro s hs
    rw [outcome_onEach_cons]
    exact ⟨(ih hrest _ (hfile s hs).1).1, fun _ _ => trivial⟩

theorem keeps_trimAll {filter : Option TagFilter} {file : FilePath} {ranges : List KeyRange}
    (h : ∀ range, KeepsOnly J (e.store.trim [file] filter range)) :
    KeepsOnly J (e.trimAll filter file ranges) := by
  induction ranges with
  | nil => exact .pure trivial
  | cons range rest ih =>
    intro s hs
    rw [outcome_trimAll_cons]
    exact ⟨(ih _ (h range s hs).1).1, fun _ _ => trivial⟩

/-- **An insertion keeps** what its store keeps when it writes to the files of the
columns. -/
theorem keeps_insert {view : DataView} {unit : String}
    (hwrite : ∀ root files, e.writableRoot = .ok root → filesOf root unit view.columns = .ok files →
      KeepsOnly J (e.store.write files view.records (view.columns.map (·.tags)))) :
    KeepsOnly (OnStore J) (e.insert view unit) := by
  rw [insert, DataView.encode_eq_records]
  refine keeps_requireOpen.bind fun _ _ => ?_
  refine (keeps_known fun root hroot => hroot).bind fun root hroot => ?_
  refine (keeps_known fun files hfiles => hfiles).bind fun files hfiles => ?_
  exact keeps_guarded (keeps_callFor (hwrite root files hroot hfiles))

/-- **A removal keeps** what its store keeps when it removes the directory of the unit,
and when it removes or trims files that were found. -/
theorem keeps_delete {paths : List String} {ranges : List KeyRange} {tags : Option TagFilter}
    {unit : String} {P : FilePath → FilePath → Prop}
    (hremove : ∀ root base, e.writableRoot = .ok root → Location.unitDir root unit = .ok base →
      KeepsOnly J (e.store.remove base))
    (hlist : ∀ root base, e.writableRoot = .ok root → Location.unitDir root unit = .ok base →
      Keeps J (e.store.list base true) fun files => ∀ file ∈ files, P base file)
    (hplain : ∀ root base path file, e.writableRoot = .ok root →
      Location.unitDir root unit = .ok base → Location.fileBelow base path = .ok file → P base file)
    (hfile : ∀ root base file, e.writableRoot = .ok root → Location.unitDir root unit = .ok base →
      P base file → KeepsOnly J (e.store.removeSeries [file] tags) ∧
        ∀ range, KeepsOnly J (e.store.trim [file] tags range)) :
    KeepsOnly (OnStore J) (e.delete paths ranges tags unit) := by
  rw [delete]
  refine keeps_requireOpen.bind fun _ _ => ?_
  refine (keeps_known fun root hroot => hroot).bind fun root hroot => ?_
  refine (keeps_known fun base hbase => hbase).bind fun base hbase => ?_
  refine .ite (fun _ => ?_) fun _ => ?_
  · exact keeps_guarded (keeps_callFor (hremove root base hroot hbase))
  · refine (keeps_guarded (keeps_resolve (hlist root base hroot hbase) fun path file =>
      hplain root base path file hroot hbase)).bind fun targets htargets => ?_
    refine keeps_guarded (keeps_callFor (keeps_onEach fun file hmem => ?_))
    obtain ⟨t, ht, rfl⟩ := List.mem_map.mp hmem
    obtain ⟨hremoved, htrimmed⟩ := hfile root base t.file hroot hbase (htargets t ht)
    exact .ite (fun _ => hremoved) fun _ => keeps_trimAll htrimmed

end Writing

/-- **Closing keeps** what its store keeps when it is closed. -/
theorem keeps_close {e : Engine σ} (h : KeepsOnly J e.store.close) :
    KeepsOnly (OnStore J) e.close := by
  intro s hs
  refine ⟨?_, fun _ _ => trivial⟩
  rw [close, outcome_bind, outcome_get]
  simp only
  split
  · exact hs
  · exact (h s.store hs).1

end Engine

end KeyedSeries

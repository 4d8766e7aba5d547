import KeyedSeries.Proofs.Engine.Keeps
import KeyedSeries.Proofs.Store.Confined

/-!
# Stores that may fail

A store may fail where the directory tree would not have made it fail: at any call, before
or after the work is done. All that is asked of such a store is that **it does to the files
what the store in the directory tree does, or nothing**, and that it reports no other result
(`KeyedSeries.Store.MayFail`). One example is the store that fails at calls that are given
in advance (`KeyedSeries.Store.withFaults`).
-/

namespace KeyedSeries

/-! ### Failing or acting -/

section Action

variable {σ α : Type}

/-- A computation fails, or does to the files what another one does. -/
structure FailsOrActs (view : σ → DirectoryStore) (x : Action σ α) (y : Action DirectoryStore α) :
    Prop where
  /-- The files are left as they were, or as the other one leaves them. -/
  files : ∀ s, view (outcome x s).2 = view s ∨ view (outcome x s).2 = (outcome y (view s)).2
  /-- A result is that of the other one, and then so are the files. -/
  result : ∀ s a, (outcome x s).1 = .ok a → outcome y (view s) = (.ok a, view (outcome x s).2)

/-- What the other one keeps of the files is kept. -/
theorem FailsOrActs.keeps {view : σ → DirectoryStore} {x : Action σ α} {y : Action DirectoryStore α}
    (h : FailsOrActs view x y) {J : DirectoryStore → Prop} {post : α → Prop} (hy : Keeps J y post) :
    Keeps (fun s => J (view s)) x post := by
  intro s hs
  obtain ⟨hkept, hpost⟩ := hy (view s) hs
  refine ⟨?_, fun a ha => hpost a (by rw [h.result s a ha])⟩
  rcases h.files s with hsame | hacted
  · rwa [hsame]
  · rwa [hacted]

end Action

/-- A store that at each call may fail, and does otherwise what the store in a directory
tree does. -/
structure Store.MayFail {σ : Type} (store : Store σ) (view : σ → DirectoryStore)
    (chunkSize : Nat) : Prop where
  /-- Reading. -/
  read : ∀ file filter ranges isHistory, FailsOrActs view (store.read file filter ranges isHistory)
    ((DirectoryStore.store chunkSize).read file filter ranges isHistory)
  /-- Writing. -/
  write : ∀ files records tagSets, FailsOrActs view (store.write files records tagSets)
    ((DirectoryStore.store chunkSize).write files records tagSets)
  /-- Removing a file or a directory. -/
  remove : ∀ file, FailsOrActs view (store.remove file)
    ((DirectoryStore.store chunkSize).remove file)
  /-- Removing series. -/
  removeSeries : ∀ files filter, FailsOrActs view (store.removeSeries files filter)
    ((DirectoryStore.store chunkSize).removeSeries files filter)
  /-- Trimming series. -/
  trim : ∀ files filter range, FailsOrActs view (store.trim files filter range)
    ((DirectoryStore.store chunkSize).trim files filter range)
  /-- Listing files. -/
  list : ∀ dir recursive, FailsOrActs view (store.list dir recursive)
    ((DirectoryStore.store chunkSize).list dir recursive)
  /-- Describing a series. -/
  describe : ∀ file, FailsOrActs view (store.describe file)
    ((DirectoryStore.store chunkSize).describe file)
  /-- Searching for bounds. -/
  bounds : ∀ dir, FailsOrActs view (store.bounds dir) ((DirectoryStore.store chunkSize).bounds dir)
  /-- Closing. -/
  close : FailsOrActs view store.close (DirectoryStore.store chunkSize).close

/-- **The store in a directory tree** is one that does not fail otherwise. -/
theorem DirectoryStore.mayFail_self (chunkSize : Nat) :
    (DirectoryStore.store chunkSize).MayFail (fun s => s) chunkSize := by
  have hself : ∀ {α : Type} (x : Action DirectoryStore α), FailsOrActs (fun s => s) x x := fun x =>
    ⟨fun s => .inr rfl, fun s a ha => Prod.ext ha rfl⟩
  exact ⟨fun _ _ _ _ => hself _, fun _ _ _ => hself _, fun _ => hself _, fun _ _ => hself _,
    fun _ _ _ => hself _, fun _ _ => hself _, fun _ => hself _, fun _ => hself _, hself _⟩

/-! ### Failures given in advance -/

/-- A state together with what becomes of the calls to come: a failure, or nothing
unusual. -/
structure Faulty (σ : Type) where
  /-- The state. -/
  state : σ
  /-- The failures of the calls to come; the calls behind them all act. -/
  faults : List (Option Failure) := []

section Faulty

variable {σ α : Type}

/-- Fails if the next call is to fail. -/
def attempt (x : Action σ α) : Action (Faulty σ) α := fun s =>
  match s.faults with
  | some failure :: rest => (.error failure, { s with faults := rest })
  | faults =>
    let (result, state) := x s.state
    (result, { state, faults := faults.tail })

/-- A store that fails at the calls that are given in advance. -/
def Store.withFaults (store : Store σ) : Store (Faulty σ) where
  read file filter ranges isHistory := attempt (store.read file filter ranges isHistory)
  write files records tagSets := attempt (store.write files records tagSets)
  remove file := attempt (store.remove file)
  removeSeries files filter := attempt (store.removeSeries files filter)
  trim files filter range := attempt (store.trim files filter range)
  list dir recursive := attempt (store.list dir recursive)
  describe file := attempt (store.describe file)
  bounds dir := attempt (store.bounds dir)
  close := attempt store.close

theorem failsOrActs_attempt (x : Action DirectoryStore α) :
    FailsOrActs (·.state) (attempt x) x := by
  constructor
  · intro s
    unfold outcome attempt
    split
    · exact .inl rfl
    · exact .inr rfl
  · intro s a ha
    unfold outcome attempt at ha ⊢
    split at ha
    · cases ha
    · exact Prod.ext ha rfl

/-- **The store with failures given in advance** fails, or acts as the store does. -/
theorem DirectoryStore.mayFail_withFaults (chunkSize : Nat) :
    (DirectoryStore.store chunkSize).withFaults.MayFail (·.state) chunkSize where
  read _ _ _ _ := failsOrActs_attempt _
  write _ _ _ := failsOrActs_attempt _
  remove _ := failsOrActs_attempt _
  removeSeries _ _ := failsOrActs_attempt _
  trim _ _ _ := failsOrActs_attempt _
  list _ _ := failsOrActs_attempt _
  describe _ := failsOrActs_attempt _
  bounds _ := failsOrActs_attempt _
  close := failsOrActs_attempt _

end Faulty

/-! ### What the store in a directory tree keeps -/

namespace DirectoryStore

open Disk FilePath

variable {α : Type} {J : Disk → Prop}

/-- A look keeps everything, and its result has what the function gives it. -/
theorem keeps_look {f : Disk → Except Failure α} {post : α → Prop}
    (h : ∀ d, J d → ∀ a, f d = .ok a → post a) :
    Keeps (fun s : DirectoryStore => J s.disk) (look f) post := by
  intro s hs
  rw [outcome_look]
  refine ⟨hs, fun a ha => h s.disk hs a ?_⟩
  split at ha
  · cases ha
  · exact ha

/-- A change keeps what its function keeps of the disk, whatever comes of it. -/
theorem keeps_change {f : Disk → Except Failure Unit × Disk} (h : ∀ d, J d → J (f d).2) :
    KeepsOnly (fun s : DirectoryStore => J s.disk) (change f) := by
  intro s hs
  rw [outcome_change]
  refine ⟨?_, fun _ _ => trivial⟩
  split
  · exact hs
  · exact h s.disk hs

end DirectoryStore

namespace Store.MayFail

open DirectoryStore

variable {σ : Type} {store : Store σ} {view : σ → DirectoryStore} {chunkSize : Nat}
  {J : Disk → Prop}

/-- **Reading changes no files**, whatever comes of it. -/
theorem reads (h : store.MayFail view chunkSize) (J : Disk → Prop) :
    Engine.StoreReads store fun s => J (view s).disk where
  read file filter ranges isHistory := (h.read file filter ranges isHistory).keeps
    (keeps_look (f := fun d => if isHistory then readHistory d (max chunkSize 1) file ranges
      else readSeries d file filter ranges) fun _ _ _ _ => trivial)
  list dir recursive := (h.list dir recursive).keeps
    (keeps_look (f := fun d => .ok (listFiles d dir recursive)) fun _ _ _ _ => trivial)
  describe file := (h.describe file).keeps
    (keeps_look (f := (describeOne · file)) fun _ _ _ _ => trivial)
  bounds dir := (h.bounds dir).keeps
    (keeps_look (f := fun d => .ok (boundsOf d dir)) fun _ _ _ _ => trivial)

/-- Nor does closing. -/
theorem keeps_close (h : store.MayFail view chunkSize) (J : Disk → Prop) :
    KeepsOnly (fun s => J (view s).disk) store.close :=
  h.close.keeps (J := fun s => J s.disk) fun _ hs => ⟨hs, fun _ _ => trivial⟩

/-- What is known of the files of a directory is known of those that are listed. -/
theorem keeps_list (h : store.MayFail view chunkSize) {dir : FilePath} {recursive : Bool}
    {P : FilePath → Prop} (hJ : ∀ d, J d → ∀ file ∈ listFiles d dir recursive, P file) :
    Keeps (fun s => J (view s).disk) (store.list dir recursive) fun files =>
      ∀ file ∈ files, P file := by
  refine (h.list dir recursive).keeps
    (keeps_look (f := fun d => .ok (listFiles d dir recursive)) fun d hd files hfiles => ?_)
  cases hfiles
  exact hJ d hd

theorem keeps_write (h : store.MayFail view chunkSize) {files : List FilePath}
    {records : List (List Record)} {tagSets : List Tags}
    (hJ : ∀ d, J d → J (writeAll files records tagSets d).2) :
    KeepsOnly (fun s => J (view s).disk) (store.write files records tagSets) :=
  (h.write files records tagSets).keeps (keeps_change (f := writeAll files records tagSets) hJ)

theorem keeps_remove (h : store.MayFail view chunkSize) {file : FilePath}
    (hJ : ∀ d, J d → J (erase d file).2) :
    KeepsOnly (fun s => J (view s).disk) (store.remove file) :=
  (h.remove file).keeps (keeps_change (f := (erase · file)) hJ)

theorem keeps_removeSeries (h : store.MayFail view chunkSize) {files : List FilePath}
    {filter : Option TagFilter} (hJ : ∀ d, J d → J (forAll (removeOne · filter) d files).2) :
    KeepsOnly (fun s => J (view s).disk) (store.removeSeries files filter) :=
  (h.removeSeries files filter).keeps
    (keeps_change (f := (forAll (removeOne · filter) · files)) hJ)

theorem keeps_trim (h : store.MayFail view chunkSize) {files : List FilePath}
    {filter : Option TagFilter} {range : KeyRange}
    (hJ : ∀ d, J d → J (forAll (trimOne · filter range) d files).2) :
    KeepsOnly (fun s => J (view s).disk) (store.trim files filter range) :=
  (h.trim files filter range).keeps
    (keeps_change (f := (forAll (trimOne · filter range) · files)) hJ)

end Store.MayFail

end KeyedSeries

import KeyedSeries.Engine
import KeyedSeries.Store.Directory

/-!
# What the parts of an engine's work come to

A computation comes to an outcome: a result or a failure, and the state that it
leaves (`KeyedSeries.outcome`). Here this is spelled out for every way in which
parts are put together – one after the other, by a store, under a guard – and for
the smallest parts, so that statements about work as a whole are read off its
parts.
-/

namespace KeyedSeries

section Action

variable {σ α β : Type}

/-- What a computation comes to in a state, and the state that it leaves. -/
def outcome (x : Action σ α) (s : σ) : Except Failure α × σ := x s

/-- What a computation comes to, with the state that it leaves. -/
theorem outcome_of_fst {x : Action σ α} {s : σ} {r : Except Failure α} (h : (outcome x s).1 = r) :
    outcome x s = (r, (outcome x s).2) := Prod.ext h rfl

/-! ### One part after the other -/

theorem outcome_bind (x : Action σ α) (f : α → Action σ β) (s : σ) :
    outcome (x >>= f) s =
      match outcome x s with
      | (.ok a, s) => outcome (f a) s
      | (.error e, s) => (.error e, s) := by
  show ExceptT.bindCont f (x s).1 (x s).2 = _
  unfold outcome
  rcases x s with ⟨_ | a, t⟩ <;> rfl

@[simp] theorem outcome_pure (a : α) (s : σ) : outcome (pure a : Action σ α) s = (.ok a, s) := rfl

@[simp] theorem outcome_throw (e : Failure) (s : σ) :
    outcome (throw e : Action σ α) s = (.error e, s) := rfl

@[simp] theorem outcome_get (s : σ) : outcome (get : Action σ σ) s = (.ok s, s) := rfl

/-- Both parts succeed, one after the other. -/
theorem outcome_bind_eq_ok_iff {x : Action σ α} {f : α → Action σ β} {s t : σ} {b : β} :
    outcome (x >>= f) s = (.ok b, t) ↔
      ∃ a t', outcome x s = (.ok a, t') ∧ outcome (f a) t' = (.ok b, t) := by
  rw [outcome_bind]
  rcases outcome x s with ⟨_ | a, t'⟩
  · simp
  · constructor
    · exact fun h => ⟨a, t', rfl, h⟩
    · rintro ⟨_, _, h, hf⟩
      cases h
      exact hf

end Action

namespace Engine

variable {σ α : Type}

/-! ### Parts of the work -/

theorem outcome_callFor (task : Task) (action : Action σ α) (s : EngineState σ) :
    outcome (callFor task action) s =
      ((outcome action s.store).1.mapError (Failure.task task),
        { s with store := (outcome action s.store).2 }) := by
  unfold outcome callFor call
  rcases action s.store with ⟨_ | a, store⟩ <;> rfl

theorem outcome_callFor_eq_ok_iff {task : Task} {action : Action σ α} {s t : EngineState σ}
    {a : α} :
    outcome (callFor task action) s = (.ok a, t) ↔
      ∃ store, outcome action s.store = (.ok a, store) ∧ t = { s with store } := by
  rw [outcome_callFor]
  rcases outcome action s.store with ⟨_ | a', store⟩
  · constructor
    · intro h
      cases h
    · rintro ⟨_, h, -⟩
      cases h
  · constructor
    · intro h
      cases h
      exact ⟨store, rfl, rfl⟩
    · rintro ⟨_, h, rfl⟩
      cases h
      rfl

theorem outcome_guarded (g : Guard) (work : Work σ α) (s : EngineState σ) :
    outcome (guarded g work) s =
      let r := outcome work { s with locks := s.locks.acquire g }
      (r.1, { r.2 with locks := r.2.locks.release g }) := rfl

/-- Work under a guard succeeds if it does with the locks of the guard. -/
theorem outcome_guarded_eq_ok_iff {g : Guard} {work : Work σ α} {s t : EngineState σ} {a : α} :
    outcome (guarded g work) s = (.ok a, t) ↔
      ∃ t', outcome work { s with locks := s.locks.acquire g } = (.ok a, t') ∧
        t = { t' with locks := t'.locks.release g } := by
  rw [outcome_guarded]
  rcases outcome work { s with locks := s.locks.acquire g } with ⟨r, t'⟩
  simp only [Prod.mk.injEq, eq_comm (a := t)]
  constructor
  · rintro ⟨rfl, h⟩
    exact ⟨t', ⟨rfl, rfl⟩, h⟩
  · rintro ⟨_, ⟨rfl, rfl⟩, h⟩
    exact ⟨rfl, h⟩

theorem outcome_known (x : Except Failure α) (s : EngineState σ) :
    outcome (known x) s = (x, s) := by
  cases x <;> rfl

theorem outcome_requireOpen (s : EngineState σ) :
    outcome requireOpen s = (if s.closed then .error .closed else .ok (), s) := by
  unfold requireOpen
  rw [outcome_bind, outcome_get]
  cases hclosed : s.closed <;> simp [hclosed]

theorem outcome_requireOpen_eq_ok_iff {s t : EngineState σ} {u : Unit} :
    outcome requireOpen s = (.ok u, t) ↔ s.closed = false ∧ s = t := by
  rw [outcome_requireOpen, Prod.mk.injEq]
  cases s.closed <;> simp

end Engine

namespace DirectoryStore

variable {α : Type}

theorem outcome_requireOpen (s : DirectoryStore) :
    outcome requireOpen s = (if s.closed then .error .closed else .ok (), s) := by
  unfold requireOpen
  rw [outcome_bind, outcome_get]
  cases hclosed : s.closed <;> simp [hclosed]

theorem outcome_look (f : Disk → Except Failure α) (s : DirectoryStore) :
    outcome (look f) s = (if s.closed then .error .closed else f s.disk, s) := by
  unfold look
  rw [outcome_bind, outcome_requireOpen]
  cases hclosed : s.closed with
  | true => rfl
  | false =>
    simp only [Bool.false_eq_true, if_false]
    rw [outcome_bind, outcome_get]
    simp only
    cases f s.disk <;> rfl

/-- A look at the disk leaves it as it is. -/
theorem outcome_look_eq_ok_iff {f : Disk → Except Failure α} {s t : DirectoryStore} {a : α} :
    outcome (look f) s = (.ok a, t) ↔ s.closed = false ∧ f s.disk = .ok a ∧ s = t := by
  rw [outcome_look, Prod.mk.injEq]
  cases s.closed <;> simp

theorem outcome_read_eq_ok_iff {chunkSize : Nat} {file : FilePath} {filter : Option TagFilter}
    {ranges : List KeyRange} {isHistory : Bool} {s t : DirectoryStore} {tables : List Table} :
    outcome ((store chunkSize).read file filter ranges isHistory) s = (.ok tables, t) ↔
      s.closed = false ∧ (if isHistory then readHistory s.disk (max chunkSize 1) file ranges
        else readSeries s.disk file filter ranges) = .ok tables ∧ s = t :=
  outcome_look_eq_ok_iff (f := fun d =>
    if isHistory then readHistory d (max chunkSize 1) file ranges
    else readSeries d file filter ranges)

theorem outcome_list_eq_ok_iff {chunkSize : Nat} {dir : FilePath} {recursive : Bool}
    {s t : DirectoryStore} {files : List FilePath} :
    outcome ((store chunkSize).list dir recursive) s = (.ok files, t) ↔
      s.closed = false ∧ files = listFiles s.disk dir recursive ∧ s = t := by
  have h := outcome_look_eq_ok_iff (f := fun d => .ok (listFiles d dir recursive)) (s := s) (t := t)
    (a := files)
  rw [Except.ok.injEq, eq_comm (b := files)] at h
  exact h

theorem outcome_describe_eq_ok_iff {chunkSize : Nat} {file : FilePath} {s t : DirectoryStore}
    {info : Option SeriesMeta} : outcome ((store chunkSize).describe file) s = (.ok info, t) ↔
      s.closed = false ∧ describeOne s.disk file = .ok info ∧ s = t :=
  outcome_look_eq_ok_iff (f := (describeOne · file))

theorem outcome_read (chunkSize : Nat) (file : FilePath) (filter : Option TagFilter)
    (ranges : List KeyRange) (isHistory : Bool) {s : DirectoryStore} (hopen : s.closed = false) :
    outcome ((store chunkSize).read file filter ranges isHistory) s =
      (if isHistory then readHistory s.disk (max chunkSize 1) file ranges
        else readSeries s.disk file filter ranges, s) := by
  have h := outcome_look (fun d => if isHistory then readHistory d (max chunkSize 1) file ranges
    else readSeries d file filter ranges) s
  rw [hopen] at h
  exact h

theorem outcome_list (chunkSize : Nat) (dir : FilePath) (recursive : Bool) {s : DirectoryStore}
    (hopen : s.closed = false) :
    outcome ((store chunkSize).list dir recursive) s =
      (.ok (listFiles s.disk dir recursive), s) := by
  have h := outcome_look (fun d => .ok (listFiles d dir recursive)) s
  rw [hopen] at h
  exact h

theorem outcome_describe (chunkSize : Nat) (file : FilePath) {s : DirectoryStore}
    (hopen : s.closed = false) :
    outcome ((store chunkSize).describe file) s = (describeOne s.disk file, s) := by
  have h := outcome_look (describeOne · file) s
  rw [hopen] at h
  exact h

theorem outcome_change (f : Disk → Except Failure Unit × Disk) (s : DirectoryStore) :
    outcome (change f) s =
      if s.closed then (.error .closed, s)
      else ((f s.disk).1, { s with disk := (f s.disk).2 }) := by
  obtain ⟨disk, closed⟩ := s
  unfold change
  rw [outcome_bind, outcome_requireOpen]
  cases closed with
  | true => rfl
  | false =>
    simp only [Bool.false_eq_true, if_false]
    rw [outcome_bind, outcome_get]
    simp only
    rcases f disk with ⟨_ | u, d⟩ <;> rfl

/-- A change of the disk of a store that is open. -/
theorem outcome_change_of_open {f : Disk → Except Failure Unit × Disk} {s : DirectoryStore}
    (hopen : s.closed = false) {r : Except Failure Unit} {d : Disk} (hf : f s.disk = (r, d)) :
    outcome (change f) s = (r, { s with disk := d }) := by
  rw [outcome_change, hopen, hf]
  rfl

/-- A change of the disk succeeds if the store is open. -/
theorem outcome_change_eq_ok_iff {f : Disk → Except Failure Unit × Disk} {s t : DirectoryStore}
    {u : Unit} : outcome (change f) s = (.ok u, t) ↔
      s.closed = false ∧ ∃ d, f s.disk = (.ok u, d) ∧ t = { s with disk := d } := by
  rw [outcome_change]
  cases s.closed with
  | true => simp
  | false =>
    rcases f s.disk with ⟨_ | u', d⟩ <;> simp [eq_comm]

theorem outcome_write_eq_ok_iff {chunkSize : Nat} {files : List FilePath}
    {records : List (List Record)} {tagSets : List Tags} {s t : DirectoryStore} {u : Unit} :
    outcome ((store chunkSize).write files records tagSets) s = (.ok u, t) ↔
      s.closed = false ∧ ∃ d, writeAll files records tagSets s.disk = (.ok u, d) ∧
        t = { s with disk := d } :=
  outcome_change_eq_ok_iff (f := writeAll files records tagSets)

section Changes

variable {s : DirectoryStore} {r : Except Failure Unit} {d : Disk}

theorem outcome_write (chunkSize : Nat) {files : List FilePath} {records : List (List Record)}
    {tagSets : List Tags} (hopen : s.closed = false)
    (h : writeAll files records tagSets s.disk = (r, d)) :
    outcome ((store chunkSize).write files records tagSets) s = (r, { s with disk := d }) := by
  have hchange := outcome_change_of_open (f := writeAll files records tagSets) hopen h
  exact hchange

/-- A store that was closed writes nothing. -/
theorem outcome_write_of_closed (chunkSize : Nat) {files : List FilePath}
    {records : List (List Record)} {tagSets : List Tags} (hclosed : s.closed = true) :
    outcome ((store chunkSize).write files records tagSets) s = (.error .closed, s) := by
  have hchange := outcome_change (writeAll files records tagSets) s
  rw [hclosed] at hchange
  exact hchange

theorem outcome_remove (chunkSize : Nat) {file : FilePath} (hopen : s.closed = false)
    (h : erase s.disk file = (r, d)) :
    outcome ((store chunkSize).remove file) s = (r, { s with disk := d }) := by
  have hchange := outcome_change_of_open (f := (erase · file)) hopen h
  exact hchange

/-- Work on a list of one file is that on the file. -/
theorem forAll_singleton {α : Type} (f : Disk → α → Except Failure Unit × Disk) (d : Disk) (a : α) :
    forAll f d [a] = f d a := by
  rw [forAll]
  rcases f d a with ⟨_ | u, d'⟩ <;> rfl

theorem outcome_removeSeries (chunkSize : Nat) {file : FilePath} {filter : Option TagFilter}
    (hopen : s.closed = false) (h : removeOne s.disk filter file = (r, d)) :
    outcome ((store chunkSize).removeSeries [file] filter) s = (r, { s with disk := d }) := by
  have hchange := outcome_change_of_open (f := (forAll (removeOne · filter) · [file])) hopen
    ((forAll_singleton _ _ _).trans h)
  exact hchange

theorem outcome_trim (chunkSize : Nat) {file : FilePath} {filter : Option TagFilter}
    {range : KeyRange} (hopen : s.closed = false)
    (h : trimOne s.disk filter range file = (r, d)) :
    outcome ((store chunkSize).trim [file] filter range) s = (r, { s with disk := d }) := by
  have hchange := outcome_change_of_open (f := (forAll (trimOne · filter range) · [file])) hopen
    ((forAll_singleton _ _ _).trans h)
  exact hchange

end Changes

end DirectoryStore

end KeyedSeries

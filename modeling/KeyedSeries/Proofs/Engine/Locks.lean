import KeyedSeries.Proofs.Engine.Confinement
import KeyedSeries.Proofs.Engine.Parts
import KeyedSeries.Proofs.Lock

/-!
# Locks and the work of an engine

An engine takes guards for its work and gives each of them back, whatever comes of the
work. So **every operation leaves the locks as it found them**
(`KeyedSeries.Operation.locks_after`), and what is in the table at any time is what the
guards of other work hold (`KeyedSeries.LockSession.locks_of_run`).
-/

namespace KeyedSeries

namespace Engine

variable {σ α : Type}

/-- Work leaves the locks as it found them, whatever comes of it. -/
def LeavesLocks (work : Work σ α) : Prop :=
  ∀ s, (outcome work s).2.locks.units = s.locks.units ∧
    (outcome work s).2.locks.files = s.locks.files

/-- Guards are given back, and nothing else touches the locks. -/
theorem passesOn_leavesLocks : PassesOn (σ := σ) fun {_} work => LeavesLocks work where
  pure _ _ := ⟨rfl, rfl⟩
  bind := by
    intro α β x f hx hf s
    obtain ⟨hunits, hfiles⟩ := hx s
    rw [outcome_bind]
    rcases hrun : outcome x s with ⟨failure | a, t⟩
    · rw [hrun] at hunits hfiles
      exact ⟨hunits, hfiles⟩
    · rw [hrun] at hunits hfiles
      exact ⟨(hf a t).1.trans hunits, (hf a t).2.trans hfiles⟩
  known x s := by
    rw [outcome_known]
    exact ⟨rfl, rfl⟩
  requireOpen s := by
    rw [outcome_requireOpen]
    exact ⟨rfl, rfl⟩
  callFor task action s := by
    rw [outcome_callFor]
    exact ⟨rfl, rfl⟩
  guarded g _ hwork s :=
    ⟨units_guarded g (fun t => (hwork t).1) s, files_guarded g (fun t => (hwork t).2) s⟩

/-- To close an engine takes no locks. -/
theorem leavesLocks_close (e : Engine σ) : LeavesLocks e.close := by
  intro s
  rw [close, outcome_bind, outcome_get]
  simp only
  split <;> exact ⟨rfl, rfl⟩

end Engine

namespace Operation

open Engine

/-- **Every operation leaves the locks as it found them**, whatever comes of it. -/
theorem locks_after {σ : Type} (e : Engine σ) (s : EngineState σ) (op : Operation) :
    (op.after e s).locks.units = s.locks.units ∧ (op.after e s).locks.files = s.locks.files := by
  have h : PassesOn (σ := σ) fun {_} work => LeavesLocks work := passesOn_leavesLocks
  cases op with
  | project paths tags filter unit isHistory => exact h.project e paths tags filter unit isHistory s
  | insert view unit => exact h.insert e view unit s
  | delete paths ranges tags unit => exact h.delete e paths ranges tags unit s
  | schema unit => exact h.schema e unit s
  | bounds start => exact h.bounds e start s
  | close => exact leavesLocks_close e s

end Operation

namespace LockSession

/-- **What is locked at any time.** After any steps on a fresh table, of which none has to
wait: there are as many units and files in the table as different ones are held by the live
guards; each guard has the files that it was asked for, each of them once; the lock that a
guard got is still the one in the table, so that two live guards have the same lock exactly
if they are for the same unit, or for the same file; and without live guards there are no
locks. And every operation of an engine, whatever its store does and whatever comes of it,
leaves as many locks as it found. -/
theorem locks_of_run {σ : Type} (e : Engine σ) (before : EngineState σ) (op : Operation)
    {steps : List LockStep} {s : LockSession} (h : run steps = some s) :
    s.table.snapshot = (s.heldUnits.dedup.length, s.heldFiles.dedup.length) ∧
    (∀ held ∈ s.live,
      held.guard.fileCount = (held.request.files.map (·.components)).dedup.length) ∧
    (∀ held ∈ s.live, held.unitLock.isSome = true ∧
      held.unitLock = LockTable.serialOf? s.table.units held.guard.unit ∧
      held.fileLocks = held.guard.files.map (LockTable.serialOf? s.table.files)) ∧
    (∀ held ∈ s.live, ∀ other ∈ s.live,
      (held.unitLock = other.unitLock ↔ held.guard.unit = other.guard.unit) ∧
      ∀ x ∈ held.guard.files.zip held.fileLocks, ∀ y ∈ other.guard.files.zip other.fileLocks,
        x.2.isSome = true ∧ (x.2 = y.2 ↔ x.1 = y.1)) ∧
    (s.live = [] → s.table.units = .empty ∧ s.table.files = .empty) ∧
    (op.after e before).locks.snapshot = before.locks.snapshot := by
  have haccounted := isAccounted_of_run h
  obtain ⟨hunits, hfiles⟩ := Operation.locks_after e before op
  refine ⟨haccounted.snapshot_eq, fun held _ => held.request.fileCount_guard, fun held hheld => ?_,
    fun held hheld other hother => ⟨haccounted.unitLock_eq_iff hheld hother,
      fun x hx y hy => ⟨?_, haccounted.fileLock_eq_iff hheld hother hx hy⟩⟩,
    haccounted.locks_of_nil, ?_⟩
  · exact ⟨haccounted.unitLock held hheld ▸ haccounted.isSome_unit hheld,
      haccounted.unitLock held hheld, haccounted.fileLocks held hheld⟩
  · obtain ⟨hf, hlock⟩ := haccounted.fileLock_eq hheld hx
    rw [hlock]
    exact haccounted.isSome_file hheld hf
  · rw [LockTable.snapshot, LockTable.snapshot, hunits, hfiles]

/-- Two guards share a file, a third one writes to another unit, and the first one goes. -/
def sharedFile : List LockStep :=
  [.take (.readFiles "u" [⟨"/d/u/a"⟩, ⟨"/d/u/b"⟩, ⟨"/d//u/./b/"⟩]),
    .take (.writeFiles "v" [⟨"/d/v/a"⟩]), .take (.readFiles "u" [⟨"/d/u/b"⟩]), .drop 2]

/-- Two files are left, one of each unit: the guard that went leaves the file that it shared. A
removal that fails leaves the locks of its engine alone. -/
theorem locks_of_run_sharedFile :
    ∃ s, run sharedFile = some s ∧ s.table.snapshot = (2, 2) ∧
      (∀ held ∈ s.live, held.guard.fileCount = 1) ∧
      ((Operation.delete ["a", "b"] [] none "u").after Operation.faultyEngine
        Operation.beforeFault).locks.snapshot = (0, 0) := by
  obtain ⟨s, hs⟩ : ∃ s, run sharedFile = some s :=
    Option.isSome_iff_exists.mp (by decide +kernel)
  have hcounts : (run sharedFile).map (fun s => s.live.map (·.guard.fileCount)) = some [1, 1] := by
    decide +kernel
  have hheld :
      (run sharedFile).map (fun s => (s.heldUnits.dedup.length, s.heldFiles.dedup.length)) =
      some (2, 2) := by decide +kernel
  rw [hs, Option.map_some, Option.some.injEq] at hheld hcounts
  obtain ⟨hsnapshot, -, -, -, -, hafter⟩ := locks_of_run Operation.faultyEngine
    Operation.beforeFault (.delete ["a", "b"] [] none "u") hs
  refine ⟨s, hs, hsnapshot.trans hheld, fun held hmem => ?_, hafter⟩
  have hcount := List.mem_map_of_mem (f := (·.guard.fileCount)) hmem
  rw [hcounts] at hcount
  simpa using hcount

end LockSession

end KeyedSeries

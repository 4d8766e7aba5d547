import Mathlib.Data.List.Dedup
import Mathlib.Data.List.Perm.Basic
import KeyedSeries.Lock
import KeyedSeries.Proofs.OrderedMap

/-!
# Locks over whole runs

Guards are taken and given back in any order, and several of them may share a lock. In a
session of requests that never have to wait (`KeyedSeries.LockSession.run`) **the locks of
the table are at any time those of the live guards**
(`KeyedSeries.LockSession.isAccounted_of_run`): a lock counts the guards that hold it, it
is the one that each of them got, and it goes with the last of them. So the size of the
table is read off the live guards (`KeyedSeries.LockSession.snapshot_eq`), and guards of
one file hold one lock (`KeyedSeries.LockSession.IsAccounted.fileLock_eq_iff`).
-/

namespace KeyedSeries

/-! ### One lock -/

/-- How many hold a lock; nobody holds one that is not there. -/
def Lock.holders : Option Lock → Nat
  | none => 0
  | some lock => lock.others + 1

namespace LockTable

@[simp] theorem holders_join (serial : Nat) (lock : Option Lock) :
    Lock.holders (join serial lock) = Lock.holders lock + 1 := by
  cases lock <;> rfl

@[simp] theorem holders_leave (lock : Option Lock) :
    Lock.holders (leave lock) = Lock.holders lock - 1 := by
  rcases lock with _ | ⟨serial, _ | n⟩ <;> rfl

/-- Who joins a lock that is there gets this lock, and else a new one. -/
theorem serial_join (serial : Nat) (lock : Option Lock) :
    (join serial lock).map Lock.serial = some ((lock.map Lock.serial).getD serial) := by
  cases lock <;> rfl

/-- What is left of a lock is this lock. -/
theorem serial_of_leave {lock : Option Lock} {serial : Nat}
    (h : (leave lock).map Lock.serial = some serial) : lock.map Lock.serial = some serial := by
  rcases lock with _ | ⟨serial', _ | n⟩
  · cases h
  · cases h
  · exact h

/-! ### Locks by key -/

section Locks

universe u

variable {κ : Type u} [Ord κ] {locks : OrderedMap κ Lock}

/-- How many hold the lock of a key. -/
def holdersOf (locks : OrderedMap κ Lock) (k : κ) : Nat := Lock.holders (locks.get? k)

/-- The number of the lock of a key. -/
def serialOf? (locks : OrderedMap κ Lock) (k : κ) : Option Nat := (locks.get? k).map Lock.serial

/-- A lock that somebody holds has a number. -/
theorem isSome_serialOf? {k : κ} (h : 0 < holdersOf locks k) :
    (serialOf? locks k).isSome = true := by
  rw [serialOf?, Option.isSome_map]
  rw [holdersOf] at h
  cases hlock : locks.get? k with
  | none =>
    rw [hlock] at h
    cases h
  | some lock => rfl

/-- The locks have different numbers, all of them below that of the next one. -/
structure IsNumbered (next : Nat) (locks : OrderedMap κ Lock) : Prop where
  /-- The numbers are below the next one. -/
  lt : ∀ {k n}, serialOf? locks k = some n → n < next
  /-- Different keys have different locks. -/
  inj : ∀ {k k' n}, serialOf? locks k = some n → serialOf? locks k' = some n → k = k'

theorem isNumbered_empty (next : Nat) : IsNumbered next (OrderedMap.empty : OrderedMap κ Lock) :=
  ⟨nofun, nofun⟩

theorem IsNumbered.mono {next next' : Nat} (h : IsNumbered next locks) (hle : next ≤ next') :
    IsNumbered next' locks := ⟨fun hk => Nat.lt_of_lt_of_le (h.lt hk) hle, h.inj⟩

variable [Std.LawfulEqOrd κ]

/-- Without holders there are no locks. -/
theorem eq_empty_of_holders [Std.TransOrd κ] (h : ∀ k, holdersOf locks k = 0) :
    locks = .empty := by
  refine OrderedMap.ext_get? fun k => ?_
  have hk := h k
  rw [holdersOf] at hk
  cases hlock : locks.get? k with
  | none => rfl
  | some lock =>
    rw [hlock] at hk
    cases hk

variable [DecidableEq κ]

/-- **There are as many locks as keys are held**, if every lock counts who holds it. -/
theorem size_eq_of_holders [BEq κ] [LawfulBEq κ] {held : List κ}
    (h : ∀ k, holdersOf locks k = held.count k) : locks.size = held.dedup.length := by
  have hnodup : locks.keys.Nodup := locks.pairwise_keys.imp fun {a b} hab heq => by
    subst heq
    exact absurd (hab.symm.trans Std.ReflCmp.compare_self) nofun
  have hmem : ∀ k, k ∈ locks.keys ↔ k ∈ held.dedup := by
    intro k
    rw [OrderedMap.mem_keys_iff, List.mem_dedup, ← List.count_pos_iff, ← h k, holdersOf]
    cases locks.get? k with
    | none => simp [Lock.holders]
    | some lock => simp [Lock.holders]
  have hperm : List.Perm locks.keys held.dedup :=
    (List.perm_ext_iff_of_nodup hnodup held.nodup_dedup).mpr hmem
  rw [← hperm.length_eq, OrderedMap.keys, List.length_map]
  rfl

variable [Std.TransOrd κ]

theorem holdersOf_alter_join [BEq κ] [LawfulBEq κ] (serial : Nat) (k k' : κ) :
    holdersOf (locks.alter k (join serial)) k' = [k].count k' + holdersOf locks k' := by
  rw [holdersOf, OrderedMap.get?_alter, List.count_singleton, holdersOf]
  by_cases hk : k' = k
  · subst hk
    simp [Nat.add_comm]
  · simp [hk, Ne.symm hk]

theorem holdersOf_alter_leave [BEq κ] [LawfulBEq κ] (k k' : κ) :
    holdersOf (locks.alter k leave) k' = holdersOf locks k' - [k].count k' := by
  rw [holdersOf, OrderedMap.get?_alter, List.count_singleton, holdersOf]
  by_cases hk : k' = k
  · subst hk
    simp
  · simp [hk, Ne.symm hk]

/-- The number of a lock does not change when it is joined. -/
theorem serialOf?_join {k k' : κ} {serial n : Nat} (h : serialOf? locks k' = some n) :
    serialOf? (locks.alter k (join serial)) k' = some n := by
  rw [serialOf?, OrderedMap.get?_alter]
  split
  · next heq =>
    subst heq
    have hnumber : (locks.get? k').map Lock.serial = some n := h
    rw [serial_join, hnumber]
    rfl
  · exact h

/-- The numbers after a lock was joined are those from before and the next one. -/
theorem serialOf?_of_join {k k' : κ} {serial n : Nat}
    (h : serialOf? (locks.alter k (join serial)) k' = some n) :
    serialOf? locks k' = some n ∨ k' = k ∧ n = serial ∧ serialOf? locks k' = none := by
  rw [serialOf?, OrderedMap.get?_alter] at h
  split at h
  · next heq =>
    subst heq
    rw [serial_join] at h
    cases hnumber : serialOf? locks k' with
    | some m =>
      rw [serialOf?] at hnumber
      rw [hnumber] at h
      exact .inl h
    | none =>
      rw [serialOf?] at hnumber
      rw [hnumber] at h
      exact .inr ⟨rfl, (Option.some.inj h).symm, rfl⟩
  · exact .inl h

theorem IsNumbered.join {next : Nat} (h : IsNumbered next locks) (k : κ) :
    IsNumbered (next + 1) (locks.alter k (join next)) := by
  have holds : ∀ {a n}, serialOf? locks a = some n → n ≠ next := fun ha => Nat.ne_of_lt (h.lt ha)
  refine ⟨fun ha => ?_, fun ha hb => ?_⟩
  · rcases serialOf?_of_join ha with ha | ⟨-, rfl, -⟩
    · exact Nat.lt_succ_of_lt (h.lt ha)
    · exact Nat.lt_succ_self _
  · -- A new lock has a number that no other lock has.
    rcases serialOf?_of_join ha with hold | ⟨hk, hn, -⟩ <;>
      rcases serialOf?_of_join hb with hold' | ⟨hk', hn', -⟩
    · exact h.inj hold hold'
    · exact absurd hn' (holds hold)
    · exact absurd hn (holds hold')
    · rw [hk, hk']

/-- What is there after a lock was left was there before, with its number. -/
theorem serialOf?_of_leave {k k' : κ} {n : Nat}
    (h : serialOf? (locks.alter k leave) k' = some n) : serialOf? locks k' = some n := by
  rw [serialOf?, OrderedMap.get?_alter] at h
  split at h
  · next heq =>
    subst heq
    exact serial_of_leave h
  · exact h

theorem IsNumbered.leave {next : Nat} (h : IsNumbered next locks) (k : κ) :
    IsNumbered next (locks.alter k leave) :=
  ⟨fun ha => h.lt (serialOf?_of_leave ha),
    fun ha hb => h.inj (serialOf?_of_leave ha) (serialOf?_of_leave hb)⟩

end Locks

/-! ### All locks of a guard -/

variable {t : LockTable} {g : Guard}

/-- The units of a table have locks of different numbers, and so have its files. -/
structure Numbers (t : LockTable) : Prop where
  /-- Those of units. -/
  units : IsNumbered t.nextSerial t.units
  /-- Those of files. -/
  files : IsNumbered t.nextSerial t.files

theorem numbers_empty : Numbers ∅ := ⟨isNumbered_empty 0, isNumbered_empty 0⟩

theorem Numbers.joinUnit (h : t.Numbers) (unit : String) : (t.joinUnit unit).Numbers :=
  ⟨h.units.join unit, h.files.mono (Nat.le_succ _)⟩

theorem Numbers.joinFiles (h : t.Numbers) (files : List FileKey) :
    (files.foldl joinFile t).Numbers := by
  induction files generalizing t with
  | nil => exact h
  | cons file rest ih => exact ih ⟨h.units.mono (Nat.le_succ _), h.files.join file⟩

theorem Numbers.acquire (h : t.Numbers) (g : Guard) : (t.acquire g).Numbers :=
  (h.joinUnit g.unit).joinFiles g.files

theorem holdersOf_joinFiles (files : List FileKey) (f : FileKey) :
    holdersOf (files.foldl joinFile t).files f = files.count f + holdersOf t.files f := by
  induction files generalizing t with
  | nil => simp
  | cons file rest ih =>
    have hfirst : holdersOf (t.joinFile file).files f = [file].count f + holdersOf t.files f :=
      holdersOf_alter_join t.nextSerial file f
    have hcount : (file :: rest).count f = [file].count f + rest.count f := by
      rw [← List.count_append, List.singleton_append]
    rw [List.foldl_cons, ih, hfirst, hcount]
    omega

theorem serialOf?_joinFiles {files : List FileKey} {f : FileKey} {n : Nat}
    (h : serialOf? t.files f = some n) : serialOf? (files.foldl joinFile t).files f = some n := by
  induction files generalizing t with
  | nil => exact h
  | cons file rest ih => exact ih (serialOf?_join h)

/-- A guard is one holder more of its unit. -/
theorem holdersOf_units_acquire (u : String) :
    holdersOf (t.acquire g).units u = [g.unit].count u + holdersOf t.units u := by
  rw [acquire, units_joinFile]
  exact holdersOf_alter_join t.nextSerial g.unit u

/-- And of each of its files. -/
theorem holdersOf_files_acquire (f : FileKey) :
    holdersOf (t.acquire g).files f = g.files.count f + holdersOf t.files f :=
  holdersOf_joinFiles g.files f

/-- Locks that are there stay the same ones when a guard takes its own. -/
theorem serialOf?_units_acquire {u : String} {n : Nat} (h : serialOf? t.units u = some n) :
    serialOf? (t.acquire g).units u = some n := by
  rw [acquire, units_joinFile]
  exact serialOf?_join h

theorem serialOf?_files_acquire {f : FileKey} {n : Nat} (h : serialOf? t.files f = some n) :
    serialOf? (t.acquire g).files f = some n :=
  serialOf?_joinFiles (t := t.joinUnit g.unit) h

theorem holdersOf_leaveFiles {locks : OrderedMap FileKey Lock} (files : List FileKey)
    (f : FileKey) :
    holdersOf (leaveFiles locks files) f = holdersOf locks f - files.count f := by
  induction files generalizing locks with
  | nil => simp [leaveFiles]
  | cons file rest ih =>
    have hrest : leaveFiles locks (file :: rest) = leaveFiles (locks.alter file leave) rest := rfl
    have hcount : (file :: rest).count f = [file].count f + rest.count f := by
      rw [← List.count_append, List.singleton_append]
    rw [hrest, ih, holdersOf_alter_leave, hcount]
    omega

/-- What is there after files were left was there before, with its number. -/
theorem serialOf?_of_leaveFiles {locks : OrderedMap FileKey Lock} {files : List FileKey}
    {f : FileKey} {n : Nat} (h : serialOf? (leaveFiles locks files) f = some n) :
    serialOf? locks f = some n := by
  induction files generalizing locks with
  | nil => exact h
  | cons file rest ih =>
    have hrest : serialOf? (locks.alter file leave) f = some n := ih h
    exact serialOf?_of_leave hrest

theorem isNumbered_leaveFiles {next : Nat} {locks : OrderedMap FileKey Lock}
    (h : IsNumbered next locks) (files : List FileKey) : IsNumbered next (leaveFiles locks files) :=
  ⟨fun ha => h.lt (serialOf?_of_leaveFiles ha),
    fun ha hb => h.inj (serialOf?_of_leaveFiles ha) (serialOf?_of_leaveFiles hb)⟩

theorem Numbers.release (h : t.Numbers) (g : Guard) : (t.release g).Numbers :=
  ⟨h.units.leave g.unit, isNumbered_leaveFiles h.files g.files⟩

end LockTable

/-! ### Guards and what they were asked for -/

namespace Guard

/-- **Each file of a list is locked once**, however often and in which spelling it is there. -/
theorem length_keysOf (files : List FilePath) :
    (keysOf files).length = (files.map (·.components)).dedup.length := by
  have hnodup : (keysOf files).Nodup :=
    (OrderedMap.pairwise_keys _).imp fun {a b} hab heq => by
      subst heq
      exact absurd (hab.symm.trans Std.ReflCmp.compare_self) nofun
  have hmem : ∀ k, k ∈ keysOf files ↔ k ∈ (files.map (·.components)).dedup := by
    have hfst : (files.map fun f => (f.components, ())).map (·.1) = files.map (·.components) := by
      rw [List.map_map]
      rfl
    intro k
    rw [keysOf, OrderedMap.mem_keys_iff, List.mem_dedup, ← hfst]
    constructor
    · rintro ⟨v, hv⟩
      exact List.mem_map.mpr ⟨(k, v), OrderedMap.mem_of_get?_ofList hv, rfl⟩
    · exact fun hk => Option.isSome_iff_exists.mp (OrderedMap.get?_ofList_isSome hk)
  exact ((List.perm_ext_iff_of_nodup hnodup (List.nodup_dedup _)).mpr hmem).length_eq

/-- Whether two guards cannot be held at a time: they share a unit or a file, and one of
them wants it for itself. -/
def conflicts (g g' : Guard) : Bool :=
  (g.unit == g'.unit && (g.unitMode == .exclusive || g'.unitMode == .exclusive)) ||
    (g.files.any (g'.files.contains ·) && (g.fileMode == .exclusive || g'.fileMode == .exclusive))

end Guard

/-- What is asked of a lock table. -/
inductive LockRequest where
  /-- To read files of a unit. -/
  | readFiles (unit : String) (files : List FilePath)
  /-- To write files of a unit. -/
  | writeFiles (unit : String) (files : List FilePath)
  /-- To look at a unit. -/
  | readUnit (unit : String)
  /-- To remove a unit. -/
  | clearUnit (unit : String)

namespace LockRequest

/-- The guard that is asked for. -/
def guard : LockRequest → Guard
  | readFiles unit files => .readFiles unit files
  | writeFiles unit files => .writeFiles unit files
  | readUnit unit => .readUnit unit
  | clearUnit unit => .clearUnit unit

/-- The files that are asked for. -/
def files : LockRequest → List FilePath
  | readFiles _ files | writeFiles _ files => files
  | readUnit _ | clearUnit _ => []

/-- A guard has the files that were asked for, each of them once. -/
theorem fileCount_guard (request : LockRequest) :
    request.guard.fileCount = (request.files.map (·.components)).dedup.length := by
  cases request with
  | readFiles unit files | writeFiles unit files => exact Guard.length_keysOf files
  | readUnit | clearUnit => rfl

end LockRequest

/-! ### Sessions -/

/-- A guard that is live, with the locks that it got. -/
structure LockHolder where
  /-- What was asked for. -/
  request : LockRequest
  /-- The number of the lock of the unit. -/
  unitLock : Option Nat
  /-- The numbers of the locks of the files, in their order. -/
  fileLocks : List (Option Nat)

/-- A table of locks and the guards that are live. -/
structure LockSession where
  /-- The table. -/
  table : LockTable
  /-- The live guards. -/
  live : List LockHolder

/-- What happens to a table of locks. -/
inductive LockStep where
  /-- A guard is asked for. -/
  | take (request : LockRequest)
  /-- A live guard is dropped, which may be any of them. -/
  | drop (index : Nat)

namespace LockHolder

/-- The guard. -/
abbrev guard (h : LockHolder) : Guard := h.request.guard

/-- Who asks for locks and gets them from a table. -/
def ofRequest (t : LockTable) (request : LockRequest) : LockHolder :=
  ⟨request, LockTable.serialOf? t.units request.guard.unit,
    request.guard.files.map (LockTable.serialOf? t.files)⟩

end LockHolder

namespace LockSession

open LockTable

variable {s s' : LockSession}

/-- Nobody holds anything. -/
def fresh : LockSession := ⟨∅, []⟩

/-- What a step leads to, unless it would have to wait for a live guard or drops a guard
that is not there. -/
def step (s : LockSession) : LockStep → Option LockSession
  | .take request =>
    if s.live.any (·.guard.conflicts request.guard) then none
    else
      let table := s.table.acquire request.guard
      some ⟨table, .ofRequest table request :: s.live⟩
  | .drop index =>
    match s.live[index]? with
    | none => none
    | some held => some ⟨s.table.release held.guard, s.live.eraseIdx index⟩

/-- What steps lead to, one after the other, if none of them has to wait. -/
def run (steps : List LockStep) : Option LockSession := steps.foldlM step fresh

/-- The units of the live guards, each as often as it is held. -/
def heldUnits (s : LockSession) : List String := s.live.map (·.guard.unit)

/-- The files of the live guards, each as often as it is held. -/
def heldFiles (s : LockSession) : List FileKey := s.live.flatMap (·.guard.files)

/-- The locks of the table are those of the live guards. -/
structure IsAccounted (s : LockSession) : Prop where
  /-- The lock of a unit counts the guards that hold it. -/
  units : ∀ u, holdersOf s.table.units u = s.heldUnits.count u
  /-- So does that of a file. -/
  files : ∀ f, holdersOf s.table.files f = s.heldFiles.count f
  /-- Different locks have different numbers. -/
  numbers : s.table.Numbers
  /-- The lock of a unit is the one that a guard got. -/
  unitLock : ∀ held ∈ s.live, held.unitLock = serialOf? s.table.units held.guard.unit
  /-- So is that of a file. -/
  fileLocks : ∀ held ∈ s.live, held.fileLocks = held.guard.files.map (serialOf? s.table.files)

theorem isAccounted_fresh : fresh.IsAccounted :=
  ⟨fun _ => rfl, fun _ => rfl, numbers_empty, nofun, nofun⟩

namespace IsAccounted

variable {held other : LockHolder}

/-- The lock of the unit of a live guard is there. -/
theorem isSome_unit (h : s.IsAccounted) (hheld : held ∈ s.live) :
    (serialOf? s.table.units held.guard.unit).isSome = true := by
  refine isSome_serialOf? ?_
  rw [h.units, List.count_pos_iff]
  exact List.mem_map.mpr ⟨held, hheld, rfl⟩

/-- So are those of its files. -/
theorem isSome_file (h : s.IsAccounted) (hheld : held ∈ s.live) {f : FileKey}
    (hf : f ∈ held.guard.files) : (serialOf? s.table.files f).isSome = true := by
  refine isSome_serialOf? ?_
  rw [h.files, List.count_pos_iff]
  exact List.mem_flatMap.mpr ⟨held, hheld, hf⟩

/-- **To take a guard** makes it one holder more, and the others keep their locks. -/
theorem take (h : s.IsAccounted) (request : LockRequest) :
    IsAccounted ⟨s.table.acquire request.guard,
      .ofRequest (s.table.acquire request.guard) request :: s.live⟩ := by
  refine ⟨fun u => ?_, fun f => ?_, h.numbers.acquire request.guard,
    List.forall_mem_cons.mpr ⟨rfl, fun held hheld => ?_⟩,
    List.forall_mem_cons.mpr ⟨rfl, fun held hheld => ?_⟩⟩
  · rw [holdersOf_units_acquire, h.units]
    rw [← List.count_append, List.singleton_append]
    rfl
  · rw [holdersOf_files_acquire, h.files]
    exact List.count_append.symm
  · obtain ⟨n, hn⟩ := Option.isSome_iff_exists.mp (h.isSome_unit hheld)
    rw [h.unitLock held hheld, hn, serialOf?_units_acquire hn]
  · rw [h.fileLocks held hheld]
    refine List.map_congr_left fun f hf => ?_
    obtain ⟨n, hn⟩ := Option.isSome_iff_exists.mp (h.isSome_file hheld hf)
    rw [hn, serialOf?_files_acquire hn]

/-- **To drop a guard** makes it one holder less. The others keep their locks: these still
have holders, and so they are there. -/
theorem drop (h : s.IsAccounted) {index : Nat} (hindex : s.live[index]? = some held) :
    IsAccounted ⟨s.table.release held.guard, s.live.eraseIdx index⟩ := by
  obtain ⟨hlt, rfl⟩ := List.getElem?_eq_some_iff.mp hindex
  have hperm : List.Perm (s.live[index] :: s.live.eraseIdx index) s.live :=
    List.getElem_cons_eraseIdx_perm hlt
  have hunits : ∀ u, holdersOf (s.table.release s.live[index].guard).units u =
      ((s.live.eraseIdx index).map (·.guard.unit)).count u := by
    intro u
    have hcount := (hperm.map (·.guard.unit)).count_eq u
    rw [List.map_cons, ← List.singleton_append, List.count_append] at hcount
    refine (holdersOf_alter_leave _ _).trans ?_
    rw [h.units, heldUnits, ← hcount, Nat.add_sub_cancel_left]
  have hfiles : ∀ f, holdersOf (s.table.release s.live[index].guard).files f =
      ((s.live.eraseIdx index).flatMap (·.guard.files)).count f := by
    intro f
    have hcount := (hperm.flatMap_right (·.guard.files)).count_eq f
    rw [List.flatMap_cons, List.count_append] at hcount
    refine (holdersOf_leaveFiles _ _).trans ?_
    rw [h.files, heldFiles, ← hcount, Nat.add_sub_cancel_left]
  have hmem : ∀ other ∈ s.live.eraseIdx index, other ∈ s.live := fun other hother =>
    List.mem_of_mem_eraseIdx hother
  refine ⟨hunits, hfiles, h.numbers.release _, fun other hother => ?_, fun other hother => ?_⟩
  · have hheld : (serialOf? (s.table.release s.live[index].guard).units
        other.guard.unit).isSome = true := by
      refine isSome_serialOf? ?_
      rw [hunits, List.count_pos_iff]
      exact List.mem_map.mpr ⟨other, hother, rfl⟩
    obtain ⟨n, hn⟩ := Option.isSome_iff_exists.mp hheld
    rw [h.unitLock other (hmem other hother), hn]
    exact serialOf?_of_leave hn
  · rw [h.fileLocks other (hmem other hother)]
    refine List.map_congr_left fun f hf => ?_
    have hheld : (serialOf? (s.table.release s.live[index].guard).files f).isSome = true := by
      refine isSome_serialOf? ?_
      rw [hfiles, List.count_pos_iff]
      exact List.mem_flatMap.mpr ⟨other, hother, hf⟩
    obtain ⟨n, hn⟩ := Option.isSome_iff_exists.mp hheld
    rw [hn]
    exact serialOf?_of_leaveFiles hn

/-- A step keeps the account. -/
theorem step (h : s.IsAccounted) {step : LockStep} (hstep : s.step step = some s') :
    s'.IsAccounted := by
  cases step with
  | take request =>
    rw [LockSession.step] at hstep
    split at hstep
    · cases hstep
    · cases hstep
      exact h.take request
  | drop index =>
    rw [LockSession.step] at hstep
    split at hstep
    · cases hstep
    · next held hindex =>
      cases hstep
      exact h.drop hindex

end IsAccounted

/-- **At any time the locks of the table are those of the live guards.** -/
theorem isAccounted_of_run {steps : List LockStep} (h : run steps = some s) : s.IsAccounted := by
  have hall : ∀ (steps : List LockStep) (start : LockSession), start.IsAccounted →
      steps.foldlM LockSession.step start = some s → s.IsAccounted := by
    intro steps
    induction steps with
    | nil =>
      intro start hstart hrun
      cases hrun
      exact hstart
    | cons step rest ih =>
      intro start hstart hrun
      rw [List.foldlM_cons] at hrun
      obtain ⟨next, hstep, hrest⟩ := Option.bind_eq_some_iff.mp hrun
      exact ih next (hstart.step hstep) hrest
  exact hall steps fresh isAccounted_fresh h

namespace IsAccounted

variable {held other : LockHolder}

/-- **The size of the table** is that of what is held, each unit and each file once. -/
theorem snapshot_eq (h : s.IsAccounted) :
    s.table.snapshot = (s.heldUnits.dedup.length, s.heldFiles.dedup.length) :=
  Prod.ext (size_eq_of_holders h.units) (size_eq_of_holders h.files)

/-- **Guards of one unit hold one lock**, and guards of different units different ones. -/
theorem unitLock_eq_iff (h : s.IsAccounted) (hheld : held ∈ s.live) (hother : other ∈ s.live) :
    held.unitLock = other.unitLock ↔ held.guard.unit = other.guard.unit := by
  rw [h.unitLock held hheld, h.unitLock other hother]
  constructor
  · intro heq
    obtain ⟨n, hn⟩ := Option.isSome_iff_exists.mp (h.isSome_unit hheld)
    exact h.numbers.units.inj hn (heq ▸ hn)
  · exact fun heq => congrArg _ heq

/-- What a guard got for a file is the lock of the file. -/
theorem fileLock_eq (h : s.IsAccounted) (hheld : held ∈ s.live) {x : FileKey × Option Nat}
    (hx : x ∈ held.guard.files.zip held.fileLocks) :
    x.1 ∈ held.guard.files ∧ x.2 = serialOf? s.table.files x.1 := by
  rw [h.fileLocks held hheld, ← List.map_prod_left_eq_zip, List.mem_map] at hx
  obtain ⟨f, hf, rfl⟩ := hx
  exact ⟨hf, rfl⟩

/-- **Guards of one file hold one lock**, and those of different files different ones. -/
theorem fileLock_eq_iff (h : s.IsAccounted) (hheld : held ∈ s.live) (hother : other ∈ s.live)
    {x y : FileKey × Option Nat} (hx : x ∈ held.guard.files.zip held.fileLocks)
    (hy : y ∈ other.guard.files.zip other.fileLocks) : x.2 = y.2 ↔ x.1 = y.1 := by
  obtain ⟨hf, hxlock⟩ := h.fileLock_eq hheld hx
  rw [hxlock, (h.fileLock_eq hother hy).2]
  constructor
  · intro heq
    obtain ⟨n, hn⟩ := Option.isSome_iff_exists.mp (h.isSome_file hheld hf)
    exact h.numbers.files.inj hn (heq ▸ hn)
  · exact fun heq => congrArg _ heq

/-- **Without live guards** there are no locks. -/
theorem locks_of_nil (h : s.IsAccounted) (hnil : s.live = []) :
    s.table.units = .empty ∧ s.table.files = .empty := by
  refine ⟨eq_empty_of_holders fun u => ?_, eq_empty_of_holders fun f => ?_⟩
  · rw [h.units, heldUnits, hnil]
    rfl
  · rw [h.files, heldFiles, hnil]
    rfl

end IsAccounted

end LockSession

end KeyedSeries

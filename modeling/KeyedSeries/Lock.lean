import KeyedSeries.FilePath
import KeyedSeries.OrderedMap

/-!
# Locks on units and files

Whoever works on files of a unit holds the lock of the unit and the locks of the
files, shared or exclusive. A lock is there as long as somebody holds it: the
first request makes it, later ones get the same one, and it goes with its last
holder. Files are told apart by their components.

**What is taken is given back**: a guard that is released leaves the locks as it
found them (`KeyedSeries.LockTable.units_release_acquire` and
`KeyedSeries.LockTable.files_release_acquire`).
-/

namespace KeyedSeries

/-- Whether others may hold a lock at the same time. -/
inductive LockMode where
  /-- Others may hold it, too. -/
  | shared
  /-- Nobody else may. -/
  | exclusive
  deriving DecidableEq, Repr

/-- A lock that somebody holds. -/
structure Lock where
  /-- Its number; no other lock has it. -/
  serial : Nat
  /-- How many hold it besides the first one. -/
  others : Nat
  deriving DecidableEq, Repr

/-- The components by which a file is locked. -/
abbrev FileKey := List String

/-- What a holder holds. -/
structure Guard where
  /-- The unit. -/
  unit : String
  /-- How its lock is held. -/
  unitMode : LockMode
  /-- The files, each of them once. -/
  files : List FileKey
  /-- How their locks are held. -/
  fileMode : LockMode
  deriving DecidableEq, Repr

namespace Guard

/-- How many files are locked. -/
def fileCount (g : Guard) : Nat := g.files.length

/-- Whether the unit is locked for everybody else. -/
def isExclusive (g : Guard) : Bool := g.unitMode == .exclusive

end Guard

/-- The locks that are held. -/
structure LockTable where
  /-- The locks of units. -/
  units : OrderedMap String Lock
  /-- The locks of files. -/
  files : OrderedMap FileKey Lock
  /-- The number of the next lock. -/
  nextSerial : Nat

namespace LockTable

/-- No locks. -/
def empty : LockTable := ⟨.empty, .empty, 0⟩

instance : EmptyCollection LockTable := ⟨empty⟩

/-- One holder more: the lock of number `serial` is made if there is none. -/
def join (serial : Nat) : Option Lock → Option Lock
  | none => some ⟨serial, 0⟩
  | some lock => some { lock with others := lock.others + 1 }

/-- One holder less; the last one takes the lock away. -/
def leave : Option Lock → Option Lock
  | none | some ⟨_, 0⟩ => none
  | some ⟨serial, n + 1⟩ => some ⟨serial, n⟩

/-- Joins the lock of a unit. -/
def joinUnit (t : LockTable) (unit : String) : LockTable :=
  { t with units := t.units.alter unit (join t.nextSerial), nextSerial := t.nextSerial + 1 }

/-- Joins the lock of a file. -/
def joinFile (t : LockTable) (file : FileKey) : LockTable :=
  { t with files := t.files.alter file (join t.nextSerial), nextSerial := t.nextSerial + 1 }

/-- Takes all locks of a guard. -/
def acquire (t : LockTable) (g : Guard) : LockTable := g.files.foldl joinFile (t.joinUnit g.unit)

/-- Leaves the locks of files, one after the other. -/
def leaveFiles (locks : OrderedMap FileKey Lock) (files : List FileKey) : OrderedMap FileKey Lock :=
  files.foldl (fun locks file => locks.alter file leave) locks

/-- Gives all locks of a guard back. -/
def release (t : LockTable) (g : Guard) : LockTable :=
  { t with files := leaveFiles t.files g.files, units := t.units.alter g.unit leave }

/-- How many units and files are locked. -/
def snapshot (t : LockTable) : Nat × Nat := (t.units.size, t.files.size)

/-! ### What is taken is given back -/

/-- Who leaves a lock undoes what joining it did. -/
@[simp] theorem leave_join (serial : Nat) (lock : Option Lock) :
    leave (join serial lock) = lock := by
  cases lock <;> rfl

/-- It does not matter when a lock is left. -/
theorem leaveFiles_alter (file : FileKey) :
    ∀ (files : List FileKey) (locks : OrderedMap FileKey Lock),
      leaveFiles (locks.alter file leave) files = (leaveFiles locks files).alter file leave
  | [], _ => rfl
  | other :: rest, locks => by
    have ih := leaveFiles_alter file rest (locks.alter other leave)
    rw [OrderedMap.alter_alter_comm] at ih
    exact ih

/-- Files that are joined and left again leave no trace on the locks of files. -/
theorem leaveFiles_joinFile :
    ∀ (files : List FileKey) (t : LockTable),
      leaveFiles (files.foldl joinFile t).files files = t.files
  | [], _ => rfl
  | file :: rest, t => by
    have ih := leaveFiles_joinFile rest (t.joinFile file)
    have hl : leaveFiles ((file :: rest).foldl joinFile t).files (file :: rest) =
        leaveFiles ((rest.foldl joinFile (t.joinFile file)).files.alter file leave) rest := rfl
    rw [hl, leaveFiles_alter, ih]
    exact OrderedMap.alter_alter_cancel _ _ (leave_join _)

/-- The locks of files have no part in those of units. -/
theorem units_joinFile :
    ∀ (files : List FileKey) (t : LockTable), (files.foldl joinFile t).units = t.units
  | [], _ => rfl
  | file :: rest, t => units_joinFile rest (t.joinFile file)

/-- **What is taken is given back**, of units. -/
theorem units_release_acquire (t : LockTable) (g : Guard) :
    ((t.acquire g).release g).units = t.units := by
  have h : ((t.acquire g).release g).units =
      ((g.files.foldl joinFile (t.joinUnit g.unit)).units).alter g.unit leave := rfl
  rw [h, units_joinFile]
  exact OrderedMap.alter_alter_cancel _ _ (leave_join _)

/-- **What is taken is given back**, of files. -/
theorem files_release_acquire (t : LockTable) (g : Guard) :
    ((t.acquire g).release g).files = t.files :=
  leaveFiles_joinFile g.files (t.joinUnit g.unit)

end LockTable

namespace Guard

/-- The files of a list, each of them once. -/
def keysOf (files : List FilePath) : List FileKey :=
  (OrderedMap.ofList (files.map fun f => (f.components, ()))).keys

/-- Work that reads files of a unit. -/
def readFiles (unit : String) (files : List FilePath) : Guard :=
  ⟨unit, .shared, keysOf files, .shared⟩

/-- Work that writes files of a unit. -/
def writeFiles (unit : String) (files : List FilePath) : Guard :=
  ⟨unit, .shared, keysOf files, .exclusive⟩

/-- Work that looks at a unit. -/
def readUnit (unit : String) : Guard := ⟨unit, .shared, [], .shared⟩

/-- Work that removes a unit. -/
def clearUnit (unit : String) : Guard := ⟨unit, .exclusive, [], .shared⟩

end Guard

end KeyedSeries

import KeyedSeries.Config.Roots
import KeyedSeries.DataView
import KeyedSeries.Filter.Reach
import KeyedSeries.Lock
import KeyedSeries.Rows
import KeyedSeries.Series.Glob
import KeyedSeries.Series.Location
import KeyedSeries.Store

/-!
# Engines

An engine reads and writes series of units. It finds the files of the series
that are asked for, locks them, and leaves the work on them to a store. Beside
the data that it manages it may show a history, which it never changes.

Work on files runs under a guard, and whatever its outcome, **the guard is given
back** (`KeyedSeries.Engine.units_guarded`, `KeyedSeries.Engine.files_guarded`).
-/

namespace KeyedSeries

/-- How an engine is set up. -/
structure Engine (σ : Type) where
  /-- The managed root and the history root. -/
  roots : Roots
  /-- Whether the engine refuses to write. -/
  readOnly : Bool
  /-- The store that works on the files. -/
  store : Store σ

/-- What changes while an engine works. -/
structure EngineState (σ : Type) where
  /-- The locks that are held. -/
  locks : LockTable := ∅
  /-- Whether the engine was closed. -/
  closed : Bool := false
  /-- The state of the store. -/
  store : σ

/-- A series of the schema. -/
structure SchemaEntry where
  /-- The series. -/
  series : SeriesInfo
  /-- Whether it is one of the history. -/
  isHistory : Bool
  deriving DecidableEq

/-- The paths that an engine has series for. -/
structure PathBounds where
  /-- The first path, if it is known. -/
  start : Option String
  /-- The last path, if it is known. -/
  stop : Option String
  /-- What stands before paths that were found. -/
  schemaRoot : Option String
  deriving DecidableEq, Repr

/-- What an engine covers: its paths, and the first and the last key. -/
structure Bounds where
  /-- The paths. -/
  paths : PathBounds
  /-- The first key. -/
  firstKey : Key
  /-- The last key. -/
  lastKey : Key
  deriving DecidableEq, Repr

namespace Engine

variable {σ : Type}

/-- Work of an engine. -/
abbrev Work (σ α : Type) := Action (EngineState σ) α

/-! ### Parts of the work -/

/-- Has the store do something. -/
def call {α : Type} (action : Action σ α) : Work σ α := fun s =>
  let (result, store) := action s.store
  (result, { s with store })

/-- Has the store do something as a part of a task. -/
def callFor {α : Type} (task : Task) (action : Action σ α) : Work σ α := fun s =>
  match call action s with
  | (.error e, s) => (.error (.task task e), s)
  | r => r

/-- Does some work under a guard. -/
def guarded {α : Type} (g : Guard) (work : Work σ α) : Work σ α := fun s =>
  let (result, s) := work { s with locks := s.locks.acquire g }
  (result, { s with locks := s.locks.release g })

/-- Work of a store takes no locks. -/
@[simp] theorem locks_call {α : Type} (action : Action σ α) (s : EngineState σ) :
    (call action s).2.locks = s.locks := rfl

/-- **The guard is given back**: work that leaves the locks of units as it finds
them does so under a guard, too, whatever its outcome. -/
theorem units_guarded {α : Type} (g : Guard) {work : Work σ α}
    (h : ∀ s, (work s).2.locks.units = s.locks.units) (s : EngineState σ) :
    (guarded g work s).2.locks.units = s.locks.units := by
  have hw := h { s with locks := s.locks.acquire g }
  exact (congrArg (·.alter g.unit LockTable.leave) hw).trans
    (LockTable.units_release_acquire s.locks g)

/-- **The guard is given back**, of files. -/
theorem files_guarded {α : Type} (g : Guard) {work : Work σ α}
    (h : ∀ s, (work s).2.locks.files = s.locks.files) (s : EngineState σ) :
    (guarded g work s).2.locks.files = s.locks.files := by
  have hw := h { s with locks := s.locks.acquire g }
  exact (congrArg (LockTable.leaveFiles · g.files) hw).trans
    (LockTable.files_release_acquire s.locks g)

/-- A result that is known already. -/
def known {α : Type} : Except Failure α → Work σ α
  | .ok a => pure a
  | .error e => throw e

/-- Fails if the engine was closed. -/
def requireOpen : Work σ Unit := do
  if (← get).closed then throw .closed

/-- The managed root. -/
def managedRoot (e : Engine σ) : Except Failure FilePath :=
  match e.roots.managed with
  | some root => .ok root
  | none => .error (.config (.undeclared dirKey))

/-- The managed root, if the engine may write. -/
def writableRoot (e : Engine σ) : Except Failure FilePath :=
  if e.readOnly then .error (.argument .readOnly) else e.managedRoot

/-! ### Finding files -/

/-- A file to work on, and the path it is known by. -/
structure Target where
  /-- The path. -/
  path : String
  /-- The file. -/
  file : FilePath
  deriving DecidableEq, Repr

/-- The files of a listing whose paths a glob matches. -/
def globbed (base : FilePath) (glob : String) (files : List FilePath) : List Target :=
  files.filterMap fun file =>
    match Location.seriesPath? base file with
    | some path => if Glob.accepts glob path then some ⟨path, file⟩ else none
    | none => none

/-- The files of paths, in the order of the paths. The files below the base are
listed at the first glob, and only then. No glob is refused for its size. -/
def targetsOf (e : Engine σ) (task : Task) (base : FilePath) (listing : Option (List FilePath)) :
    List String → Work σ (List Target)
  | [] => pure []
  | path :: rest => do
    if Glob.isGlob path then
      let files ← match listing with
        | some files => pure files
        | none => callFor task (e.store.list base true)
      return globbed base path files ++ (← targetsOf e task base (some files) rest)
    else
      let file ← known (Location.fileBelow base path)
      return ⟨path, file⟩ :: (← targetsOf e task base listing rest)

/-- The targets by file, in the order of their components; of several with one
file the first one. -/
def distinct (targets : List Target) : List Target :=
  (targets.foldl (fun (m : OrderedMap (List String) Target) t =>
    m.alter t.file.components fun
      | some first => some first
      | none => some t) .empty).values

/-- The files of paths, each of them once. -/
def resolve (e : Engine σ) (task : Task) (base : FilePath) (paths : List String) :
    Work σ (List Target) := do
  return distinct (← e.targetsOf task base none paths)

/-- The tables of targets. -/
def readAll (e : Engine σ) (filter : Option TagFilter) (ranges : List KeyRange)
    (isHistory : Bool) : List Target → Work σ (List (String × Table))
  | [] => pure []
  | t :: rest => do
    let tables ← callFor .project (e.store.read t.file filter ranges isHistory)
    return tables.map (t.path, ·) ++ (← readAll e filter ranges isHistory rest)

/-! ### Reading -/

/-- The rows of the history. History series have no tags, and so nothing is found
where tags are asked for. -/
def projectHistory (e : Engine σ) (paths : List String) (tags : Option TagFilter)
    (filter : Option Filter) : Work σ Rows := do
  if tags.isSome then return .empty
  let some root := e.roots.history | throw (.config .noHistory)
  let ranges := Filter.reach filter
  if ranges.isEmpty then return .empty
  let targets ← e.resolve .project root paths
  return .ofTables (← e.readAll none ranges true targets) filter

/-- The rows of the paths of a unit that both filters accept. -/
def project (e : Engine σ) (paths : List String) (tags : Option TagFilter)
    (filter : Option Filter) (unit : String) (isHistory : Bool) : Work σ Rows := do
  requireOpen
  if isHistory then return ← e.projectHistory paths tags filter
  let ranges := Filter.reach filter
  if ranges.isEmpty then return .empty
  let root ← known e.managedRoot
  let base ← known (Location.unitDir root unit)
  let targets ← guarded (.readUnit unit) (e.resolve .project base paths)
  let tables ← guarded (.readFiles unit (targets.map (·.file)))
    (e.readAll tags ranges false targets)
  return .ofTables tables filter

/-- The managed series of a unit. -/
def describeAll (e : Engine σ) (base : FilePath) : List FilePath → Work σ (List SchemaEntry)
  | [] => pure []
  | file :: rest => do
    match Location.seriesPath? base file with
    | none => describeAll e base rest
    | some path =>
      let some info ← callFor .schema (e.store.describe file) | throw (.noMetadata file)
      return ⟨⟨path, info.dataType, info.tags⟩, false⟩ :: (← describeAll e base rest)

/-- The series of a unit, and behind them those of the history. -/
def schema (e : Engine σ) (unit : String) : Work σ (List SchemaEntry) := do
  requireOpen
  let managed ← match e.roots.managed with
    | none => pure []
    | some root => do
      let base ← known (Location.unitDir root unit)
      guarded (.readUnit unit) do
        let files ← callFor .schema (e.store.list base true)
        e.describeAll base files
  match e.roots.history with
  | none => return managed
  | some root => do
    let files ← callFor .schema (e.store.list root true)
    return managed ++ files.filterMap fun file =>
      (Location.seriesPath? root file).map fun path => ⟨⟨path, .binary, .empty⟩, true⟩

/-- What the engine covers. A root of paths that the caller names is taken as it
is; otherwise the history is searched. The keys are not searched. -/
def bounds (e : Engine σ) (start : Option String) : Work σ Bounds := do
  requireOpen
  match start.filter (· ≠ "") with
  | some path => return ⟨⟨some path, some path, none⟩, 0, Key.top⟩
  | none => do
    let some root := e.roots.history | throw (.config .boundsNeedHistory)
    let found ← callFor .boundary (e.store.bounds root)
    let pathOf := fun file => Location.seriesPath? root file
    return ⟨⟨found.bind (pathOf ·.1), found.bind (pathOf ·.2), root.fileName?⟩, 0, Key.top⟩

/-! ### Writing -/

/-- The files of the series of a view. -/
def filesOf (root : FilePath) (unit : String) : List SeriesInfo → Except Failure (List FilePath)
  | [] => .ok []
  | s :: rest =>
    match Location.file root unit s.path with
    | .error e => .error e
    | .ok file =>
      match filesOf root unit rest with
      | .error e => .error e
      | .ok files => .ok (file :: files)

/-- Stores the present cells of a view. -/
def insert (e : Engine σ) (view : DataView) (unit : String) : Work σ Unit := do
  requireOpen
  let root ← known e.writableRoot
  let files ← known (filesOf root unit view.columns)
  guarded (.writeFiles unit files)
    (callFor .insert (e.store.write files view.encode (view.columns.map (·.tags))))

/-- Does something with every file, whatever happens to the others, and fails
with the first failure. -/
def onEach (f : FilePath → Action σ Unit) : List FilePath → Action σ Unit
  | [] => pure ()
  | file :: rest => fun s =>
    let (result, s) := f file s
    let (others, s) := onEach f rest s
    match result with
    | .error e => (.error e, s)
    | .ok () => (others, s)

/-- Trims a file by every range, whatever happens at the others, and fails with
the first failure. -/
def trimAll (e : Engine σ) (filter : Option TagFilter) (file : FilePath) :
    List KeyRange → Action σ Unit
  | [] => pure ()
  | range :: rest => fun s =>
    let (result, s) := e.store.trim [file] filter range s
    let (others, s) := trimAll e filter file rest s
    match result with
    | .error e => (.error e, s)
    | .ok () => (others, s)

/-- Whether a removal takes the whole unit: everything is asked for, and nothing
restricts it. -/
def clearsUnit (paths : List String) (ranges : List KeyRange) (tags : Option TagFilter) : Bool :=
  ranges.isEmpty && tags.isNone && paths == [String.singleton Glob.star]

/-- Removes series of a unit, or, where ranges are given, the records in them. -/
def delete (e : Engine σ) (paths : List String) (ranges : List KeyRange)
    (tags : Option TagFilter) (unit : String) : Work σ Unit := do
  requireOpen
  let root ← known e.writableRoot
  let base ← known (Location.unitDir root unit)
  if clearsUnit paths ranges tags then
    guarded (.clearUnit unit) (callFor .delete (e.store.remove base))
  else
    let targets ← guarded (.readUnit unit) (e.resolve .delete base paths)
    let files := targets.map (·.file)
    guarded (.writeFiles unit files) <| callFor .delete <|
      onEach (fun file =>
        if ranges.isEmpty then e.store.removeSeries [file] tags
        else e.trimAll tags file ranges) files

/-- Ends the work of the engine. Once is enough. -/
def close (e : Engine σ) : Work σ Unit := do
  if (← get).closed then return
  modify ({ · with closed := true })
  call e.store.close

end Engine

end KeyedSeries

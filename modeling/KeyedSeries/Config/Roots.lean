import KeyedSeries.Config
import KeyedSeries.Disk.Change

/-!
# The roots of an engine

An engine that may write has a managed root, which is made if it is missing. An
engine with a history has a history root, which is not. Roots are compared, and
used later on, without links (`KeyedSeries.Config.resolve`).
-/

namespace KeyedSeries

/-- Where the data of an engine lie. -/
structure Roots where
  /-- The managed root; there is none if only a history is read. -/
  managed : Option FilePath
  /-- The history root, if there is a history. -/
  history : Option FilePath
  deriving DecidableEq, Repr

namespace Config

/-- The path declared under a key, unless it is blank. -/
def declared (key : String) (dir : Option FilePath) : Except Failure FilePath :=
  match dir with
  | some dir =>
    if Unicode.trimBlanks dir.text = "" then .error (.config (.undeclared key)) else .ok dir
  | none => .error (.config (.undeclared key))

/-- Refuses a path that leads to a plain file. -/
def refuseFile (d : Disk) (key : String) (dir : FilePath) : Except Failure Unit :=
  if d.isFile dir then .error (.config (.plainFile key dir)) else .ok ()

/-- A root as it is used: without links if it exists, else written from the root
of the disk on. -/
def rootPath (d : Disk) (dir : FilePath) : Except Failure FilePath :=
  if d.exists? dir then
    match d.canonical dir with
    | .ok p => .ok p
    | .error e => .error (.io e)
  else .ok dir.absolute

/-- The history root. -/
def historyRoot (c : Config) (d : Disk) : Except Failure FilePath := do
  let dir ← declared historyKey c.historyDir
  refuseFile d historyKey dir
  rootPath d dir

/-- The managed root, which is made if the engine may write. -/
def managedRoot (c : Config) (d : Disk) : Except Failure FilePath × Disk :=
  let dir := do
    let dir ← declared dirKey c.dir
    refuseFile d dirKey dir
    return dir
  match dir with
  | .error e => (.error e, d)
  | .ok dir =>
    if c.readOnly then (rootPath d dir, d)
    else
      match d.makeDirs dir with
      | (.error e, d) => (.error (.io e), d)
      | (.ok (), d) => (rootPath d dir, d)

/-- The roots of an engine. The history root is looked up before the managed one
is made, and the two may not be one path. -/
def resolve (c : Config) (d : Disk) : Except Failure Roots × Disk :=
  if c.chunkSize = 0 then (.error (.config .noChunks), d)
  else if c.hasHistory then
    match c.historyRoot d with
    | .error e => (.error e, d)
    | .ok history =>
      if c.readOnly then (.ok ⟨none, some history⟩, d)
      else
        match c.managedRoot d with
        | (.error e, d) => (.error e, d)
        | (.ok root, d) =>
          if root.components = history.components then
            (.error (.config (.sameRoot root history)), d)
          else (.ok ⟨some root, some history⟩, d)
  else
    match c.managedRoot d with
    | (.error e, d) => (.error e, d)
    | (.ok root, d) => (.ok ⟨some root, none⟩, d)

end Config

end KeyedSeries

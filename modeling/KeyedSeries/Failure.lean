import KeyedSeries.FilePath
import KeyedSeries.KeyRange
import KeyedSeries.Value

/-!
# Failures of stores and engines

A failure names its cause; the words for it are in one place
(`KeyedSeries.Failure.message?`). Failures of the file system are told apart by
kind only and have no words here, and neither have documents that cannot be
read.
-/

namespace KeyedSeries

/-- What can go wrong in the file system. -/
inductive IoKind where
  /-- There is no such entry. -/
  | notFound
  /-- Something on the way is not a directory. -/
  | notADirectory
  /-- A directory stands where a file is asked for. -/
  | isADirectory
  /-- There is such an entry already. -/
  | alreadyExists
  /-- The directory has entries. -/
  | directoryNotEmpty
  /-- The entry cannot be replaced. -/
  | resourceBusy
  /-- The path cannot be a path. -/
  | invalidInput
  /-- A name on the way is too long. -/
  | invalidFilename
  /-- There are too many links on the way. -/
  | filesystemLoop
  /-- Anything else. -/
  | other
  deriving DecidableEq, Repr

namespace IoKind

/-- The name of the kind. -/
def name : IoKind → String
  | notFound => "NotFound"
  | notADirectory => "NotADirectory"
  | isADirectory => "IsADirectory"
  | alreadyExists => "AlreadyExists"
  | directoryNotEmpty => "DirectoryNotEmpty"
  | resourceBusy => "ResourceBusy"
  | invalidInput => "InvalidInput"
  | invalidFilename => "InvalidFilename"
  | filesystemLoop => "FilesystemLoop"
  | other => "Other"

end IoKind

/-- What can be wrong with a configuration. -/
inductive ConfigFault where
  /-- The chunk size is no number. -/
  | chunkSize (raw : String)
  /-- The chunk size is zero. -/
  | noChunks
  /-- A root is missing or blank. -/
  | undeclared (key : String)
  /-- A root is a plain file. -/
  | plainFile (key : String) (dir : FilePath)
  /-- Both roots are one directory. -/
  | sameRoot (dir history : FilePath)
  /-- There is no history to find bounds in. -/
  | boundsNeedHistory
  /-- There is no history to read. -/
  | noHistory
  /-- The document is not a configuration. -/
  | document
  deriving DecidableEq, Repr

/-- The key of the managed root. -/
def dirKey : String := "dir"

/-- The key of the history root. -/
def historyKey : String := "dummy_dir"

/-- The key of the chunk size. -/
def chunkSizeKey : String := "chunk_size"

/-- The fault in words. -/
def ConfigFault.message : ConfigFault → String
  | chunkSize raw => "invalid " ++ chunkSizeKey ++ " '" ++ raw ++ "'"
  | noChunks => chunkSizeKey ++ " must be positive"
  | undeclared key => "no " ++ key ++ " declared"
  | plainFile key dir => "invalid " ++ key ++ " " ++ dir.text ++ ": not a directory"
  | sameRoot dir history =>
    dirKey ++ " " ++ dir.text ++ " cannot be equal to dummy directory " ++ history.text
  | boundsNeedHistory => "boundary discovery requires a " ++ historyKey
  | noHistory => "history data is not enabled"
  | document => "invalid document"

/-- What can be wrong with a data view. -/
inductive ViewFault where
  /-- A key does not come before the next one. -/
  | unordered (key next : Key)
  /-- The last key is too large to be stored. -/
  | keyTooLarge (key : Key)
  /-- Two columns have one path. -/
  | repeatedPath (path : String)
  /-- There are too many or too few masks or value lists. -/
  | lineCount (expected masks values : Nat)
  /-- A mask is too long or too short. -/
  | maskLength (line length expected : Nat)
  /-- A mask shows more or fewer cells than there are. -/
  | cellCount (line shown values : Nat)
  /-- A cell is not of its column's type. -/
  | cellType (line place : Nat) (value : Value) (expected : DataType)
  /-- A row has too many or too few cells. -/
  | rowWidth (key : Key) (cells expected : Nat)
  /-- A column has too many or too few cells. -/
  | columnHeight (column cells expected : Nat)
  deriving DecidableEq, Repr

/-- The fault in words. -/
def ViewFault.message : ViewFault → String
  | unordered key next =>
    s!"keys must be strictly ascending, found {key.toInt} before {next.toInt}"
  | keyTooLarge key => s!"key {key.toInt} exceeds the largest storable key {Key.last.toInt}"
  | repeatedPath path => "duplicate path '" ++ path ++ "'"
  | lineCount expected masks values =>
    s!"expected {expected} bitmaps and value lists, got {masks} and {values}"
  | maskLength line length expected => s!"bitmap {line} has length {length}, expected {expected}"
  | cellCount line shown values => s!"bitmap {line} has {shown} set bits but {values} values"
  | cellType line place value expected =>
    s!"value {value.display} at ({line}, {place}) is not {expected.text}"
  | rowWidth key cells expected => s!"row {key.toInt} has {cells} cells, expected {expected}"
  | columnHeight column cells expected =>
    s!"column {column} has {cells} cells, expected {expected}"

/-- What can be wrong with an argument. -/
inductive ArgumentFault where
  /-- A unit is not the name of one entry. -/
  | unit (name : String)
  /-- A segment of a series path is not the name of one entry. -/
  | segment (name : String)
  /-- A series path has no segment. -/
  | noSeries (path : String)
  /-- The engine does not write. -/
  | readOnly
  /-- The lists that describe a write have different lengths. -/
  | batch (files records tagSets : Nat)
  /-- A series holds values of another type. -/
  | valueType (file : FilePath) (expected found : DataType) (key : Key)
  /-- A file has no directory around it. -/
  | noParent (file : FilePath)
  /-- A file has no name. -/
  | noFileName (file : FilePath)
  /-- A reason of the store's own. -/
  | other (reason : String)
  deriving DecidableEq, Repr

/-- The fault in words. -/
def ArgumentFault.message : ArgumentFault → String
  | unit name => "storage unit '" ++ name ++ "' is not a single directory entry"
  | segment name => "path segment '" ++ name ++ "' is not a single directory entry"
  | noSeries path => "path '" ++ path ++ "' names no series"
  | readOnly => "storage engine is read-only"
  | batch files records tagSets =>
    s!"{files} files, {records} record lists and {tagSets} tag sets"
  | valueType file expected found key =>
    s!"{file.text} holds {expected.text} values, got {found.text} at key {key.toInt}"
  | noParent file => file.text ++ " has no parent"
  | noFileName file => file.text ++ " has no file name"
  | other reason => reason

/-- What an engine does for a caller. -/
inductive Task where
  /-- Reads rows. -/
  | project
  /-- Stores a data view. -/
  | insert
  /-- Removes series or some of their records. -/
  | delete
  /-- Lists the series. -/
  | schema
  /-- Finds the bounds. -/
  | boundary
  deriving DecidableEq, Repr

/-- The name of the task. -/
def Task.name : Task → String
  | project => "project"
  | insert => "insert"
  | delete => "delete"
  | schema => "schema"
  | boundary => "boundary"

/-- Why a store or an engine could not do what it was asked to. -/
inductive Failure where
  /-- The configuration is wrong. -/
  | config (fault : ConfigFault)
  /-- The file system refused. -/
  | io (kind : IoKind)
  /-- A task failed in the store. -/
  | task (task : Task) (cause : Failure)
  /-- A file of the unit holds no series. -/
  | noMetadata (file : FilePath)
  /-- A data view is wrong. -/
  | view (fault : ViewFault)
  /-- An argument is wrong. -/
  | argument (fault : ArgumentFault)
  /-- A document cannot be read. -/
  | unreadable
  /-- The engine or the store was closed. -/
  | closed
  deriving DecidableEq, Repr

/-- The failure in words, where there are words for it. -/
def Failure.message? : Failure → Option String
  | config .document | io _ | unreadable => none
  | config fault => some ("configuration error: " ++ fault.message)
  | task t _ => some ("execute " ++ t.name ++ " task failure")
  | noMetadata file => some ("schema inconsistency: no metadata for " ++ file.text)
  | view fault => some ("invalid data view: " ++ fault.message)
  | argument fault => some ("invalid argument: " ++ fault.message)
  | closed => some "storage engine closed"

/-- A computation on a state that may fail. What it did to the state before it
failed stays done. -/
abbrev Action (σ α : Type) := ExceptT Failure (StateM σ) α

end KeyedSeries

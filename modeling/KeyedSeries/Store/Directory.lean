import KeyedSeries.Disk.Change
import KeyedSeries.Series.Document
import KeyedSeries.Store

/-!
# A store in a directory tree

Every series is one document in one file. A document is written beside its file
under a hidden name and then takes the file's place, so that the file is never
seen half written (`KeyedSeries.DirectoryStore.save`). Hidden entries and links
are not listed.

History files are no documents: such a file is cut into chunks, and each chunk is
a record under its number.
-/

namespace KeyedSeries

/-- The state of a store in a directory tree. -/
structure DirectoryStore where
  /-- The disk. -/
  disk : Disk
  /-- Whether the store was closed. -/
  closed : Bool := false
  deriving DecidableEq

namespace DirectoryStore

/-! ### Documents -/

/-- The document of a file. Neither a directory nor a path to nothing has one. -/
def load (d : Disk) (file : FilePath) : Except Failure (Option Document) :=
  if d.isDir file then .ok none
  else
    match d.read file with
    | .ok content =>
      match Document.ofBytes? content with
      | some doc => .ok (some doc)
      | none => .error .unreadable
    | .error .notFound => .ok none
    | .error e => .error (.io e)

/-- The hidden name under which a file is written first. -/
def draftName (name : String) : String := "." ++ name ++ ".tmp"

/-- Writes a document beside its file and puts it into the file's place. If it
cannot take that place, it stays beside it. -/
def putInPlace (d : Disk) (draft file : FilePath) (doc : Document) : Except Failure Unit × Disk :=
  match d.write draft doc.bytes with
  | .error e => (.error (.io e), d)
  | .ok d =>
    match d.rename draft file with
    | .error e => (.error (.io e), d)
    | .ok d => (.ok (), d)

/-- Stores a document in a file, and makes the directories around it. -/
def save (d : Disk) (file : FilePath) (doc : Document) : Except Failure Unit × Disk :=
  match file.parent? with
  | none => (.error (.argument (.noParent file)), d)
  | some dir =>
    match d.makeDirs dir with
    | (.error e, d) => (.error (.io e), d)
    | (.ok (), d) =>
      match file.fileName? with
      | none => (.error (.argument (.noFileName file)), d)
      | some name => putInPlace d (dir.child (draftName name)) file doc

/-- Removes what a path leads to; if there is nothing, that is fine. -/
def erase (d : Disk) (file : FilePath) : Except Failure Unit × Disk :=
  let (result, d) :=
    if d.isDir file then d.removeTree file
    else
      match d.removeFile file with
      | .ok d => (.ok (), d)
      | .error e => (.error e, d)
  match result with
  | .ok () | .error .notFound => (.ok (), d)
  | .error e => (.error (.io e), d)

/-- The document with records added. Each of them has to be of the document's
type, in what it declares and in what it holds. -/
def addRecords (file : FilePath) (doc : Document) : List Record → Except Failure Document
  | [] => .ok doc
  | r :: rest =>
    if r.dataType = doc.dataType ∧ r.value.dataType = doc.dataType then
      addRecords file { doc with records := doc.records.insert r.key r.value } rest
    else .error (.argument (.valueType file doc.dataType r.value.dataType r.key))

/-- Adds records to a file and replaces the tags. A new file is of the type of
its first record; without one there is nothing to make. -/
def writeSeries (d : Disk) (file : FilePath) (records : List Record) (tags : Tags) :
    Except Failure Unit × Disk :=
  let start : Except Failure (Option Document) :=
    match load d file with
    | .ok none => .ok (records.head?.map fun r => ⟨r.dataType, .empty, .empty⟩)
    | r => r
  match start with
  | .error e => (.error e, d)
  | .ok none => (.ok (), d)
  | .ok (some doc) =>
    match addRecords file doc records with
    | .error e => (.error e, d)
    | .ok doc => save d file { doc with tags }

/-- Removes a series file whose tags are accepted. Without a filter the document
is not looked at. -/
def removeOne (d : Disk) (filter : Option TagFilter) (file : FilePath) :
    Except Failure Unit × Disk :=
  if d.isDir file then (.ok (), d)
  else
    match filter with
    | none => erase d file
    | some f =>
      match load d file with
      | .error e => (.error e, d)
      | .ok none => (.ok (), d)
      | .ok (some doc) => if f.isMet doc.tags then erase d file else (.ok (), d)

/-- Removes the records in a range from a file whose tags are accepted. A
document that had none there is not written again. -/
def trimOne (d : Disk) (filter : Option TagFilter) (range : KeyRange) (file : FilePath) :
    Except Failure Unit × Disk :=
  match load d file with
  | .error e => (.error e, d)
  | .ok none => (.ok (), d)
  | .ok (some doc) =>
    let kept := doc.records.filter fun k _ => !range.contains k
    if TagFilter.accepts filter doc.tags && kept.size != doc.records.size then
      save d file { doc with records := kept }
    else (.ok (), d)

/-- Does something with every file of a list, up to the first failure. -/
def forAll {α : Type} (f : Disk → α → Except Failure Unit × Disk) (d : Disk) :
    List α → Except Failure Unit × Disk
  | [] => (.ok (), d)
  | a :: rest =>
    match f d a with
    | (.ok (), d) => forAll f d rest
    | r => r

/-! ### Reading -/

/-- The records of a document whose keys lie in the ranges, in order. -/
def recordsIn (doc : Document) (ranges : List KeyRange) : List Record :=
  (KeyRange.normalize ranges).flatMap fun range =>
    (doc.records.toList.filter fun (k, _) => range.contains k).map fun (k, v) =>
      ⟨k, doc.dataType, v⟩

/-- The table of a series file, if its tags are accepted. -/
def readSeries (d : Disk) (file : FilePath) (filter : Option TagFilter)
    (ranges : List KeyRange) : Except Failure (List Table) :=
  match load d file with
  | .error e => .error e
  | .ok none => .ok []
  | .ok (some doc) =>
    if TagFilter.accepts filter doc.tags then
      .ok [⟨file, doc.dataType, doc.tags, recordsIn doc ranges⟩]
    else .ok []

/-- The chunks of a content, each of `size + 1` bytes but the last one; `steps`
bounds their number. -/
def chunks (size : Nat) : Nat → Bytes → List Bytes
  | 0, _ => []
  | steps + 1, content =>
    match content with
    | [] => []
    | _ => content.take (size + 1) :: chunks size steps (content.drop (size + 1))

/-- The chunks of a content as records by number. -/
def chunkRecords (chunkSize : Nat) (content : Bytes) : List Record :=
  (chunks (chunkSize - 1) content.length content).zipIdx.map fun (chunk, i) =>
    ⟨Int64.ofNat i, .binary, .binary chunk⟩

/-- The table of a history file. -/
def readHistory (d : Disk) (chunkSize : Nat) (file : FilePath) (ranges : List KeyRange) :
    Except Failure (List Table) :=
  if d.isFile file then
    match d.read file with
    | .error e => .error (.io e)
    | .ok content =>
      let records := (chunkRecords chunkSize content).filter fun r =>
        KeyRange.anyContains ranges r.key
      .ok [⟨file, .binary, .empty, records⟩]
  else .ok []

/-- Whether a name is hidden. -/
def isHidden (name : String) : Bool := name.toList.head? == some '.'

/-- The files in a directory, or below it, that are neither hidden nor links nor
in a hidden directory. -/
def listFiles (d : Disk) (dir : FilePath) (recursive : Bool) : List FilePath :=
  match d.dirPlace? dir with
  | none => []
  | some place =>
    (d.below place).filterMap fun (names, e) =>
      match e with
      | .file _ =>
        if (recursive || names.length == 1) && !names.any isHidden then
          some (names.foldl FilePath.child dir)
        else none
      | _ => none

/-! ### The store -/

/-- Fails if the store was closed. -/
def requireOpen : Action DirectoryStore Unit := do
  if (← get).closed then throw .closed

/-- Looks at the disk. -/
def look {α : Type} (f : Disk → Except Failure α) : Action DirectoryStore α := do
  requireOpen
  liftExcept (f (← get).disk)
where
  /-- A result as a computation. -/
  liftExcept : Except Failure α → Action DirectoryStore α
    | .ok a => pure a
    | .error e => throw e

/-- Changes the disk. -/
def change (f : Disk → Except Failure Unit × Disk) : Action DirectoryStore Unit := do
  requireOpen
  let (result, disk) := f (← get).disk
  modify ({ · with disk })
  match result with
  | .ok () => pure ()
  | .error e => throw e

/-- Writes to several files in turn. -/
def writeAll (files : List FilePath) (records : List (List Record)) (tagSets : List Tags)
    (d : Disk) : Except Failure Unit × Disk :=
  if files.length ≠ records.length ∨ files.length ≠ tagSets.length then
    (.error (.argument (.batch files.length records.length tagSets.length)), d)
  else
    forAll (fun d (file, records, tags) => writeSeries d file records tags) d
      (files.zip (records.zip tagSets))

/-- What is said of the series of a file; an unreadable document says nothing. -/
def describeOne (d : Disk) (file : FilePath) : Except Failure (Option SeriesMeta) :=
  match load d file with
  | .ok doc => .ok (doc.map fun doc => ⟨doc.dataType, doc.tags⟩)
  | .error .unreadable => .ok none
  | .error e => .error e

/-- The first and the last file below a directory. -/
def boundsOf (d : Disk) (dir : FilePath) : Option (FilePath × FilePath) :=
  let files := listFiles d dir true
  match files.head?, files.getLast? with
  | some first, some last => some (first, last)
  | _, _ => none

/-- The store in a directory tree that cuts history files into chunks of a size;
a size of zero is taken for one. -/
def store (chunkSize : Nat) : Store DirectoryStore where
  read file filter ranges isHistory := look fun d =>
    if isHistory then readHistory d (max chunkSize 1) file ranges
    else readSeries d file filter ranges
  write files records tagSets := change (writeAll files records tagSets)
  remove file := change (erase · file)
  removeSeries files filter := change (forAll (removeOne · filter) · files)
  trim files filter range := change (forAll (trimOne · filter range) · files)
  list dir recursive := look fun d => .ok (listFiles d dir recursive)
  describe file := look (describeOne · file)
  bounds dir := look fun d => .ok (boundsOf d dir)
  close := modify ({ · with closed := true })

end DirectoryStore

end KeyedSeries

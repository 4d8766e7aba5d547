import KeyedSeries.Disk

/-!
# Changing a disk

A change that fails leaves the disk as it was. Two changes are made of several
and can fail halfway: `KeyedSeries.Disk.makeDirs` and
`KeyedSeries.Disk.removeTree` say what became of the disk in any case.
-/

namespace KeyedSeries.Disk

/-! ### Names -/

/-- Whether a path ends in a slash. -/
def endsInSlash (p : FilePath) : Bool := p.text.toList.getLast? == some '/'

/-- A path without the slashes at its end. -/
def withoutSlashes (p : FilePath) : FilePath :=
  match (p.text.toList.reverse.dropWhile (· == '/')).reverse with
  | [] => p
  | t => ⟨String.ofList t⟩

/-- Where the last name of a path leads: a link is not followed, whether or not a
slash stands behind it. -/
def locateName (d : Disk) (p : FilePath) : Except IoKind Spot := d.locate false (withoutSlashes p)

/-- The last step of a written path, apart from slashes at its end. -/
def lastStep? (p : FilePath) : Option String := ((stepsOf p.text).filter (· ≠ "")).getLast?

/-! ### Making entries -/

/-- Writes a file, a new one or in the place of an old one. -/
def write (d : Disk) (p : FilePath) (content : Bytes) : Except IoKind Disk :=
  match d.locate true p with
  | .error e => .error e
  | .ok (.found place (.file _)) => .ok (d.put place (.file content))
  | .ok (.found ..) => .error .isADirectory
  | .ok (.vacant place slash) =>
    if slash then .error .isADirectory else .ok (d.put place (.file content))

/-- Makes a directory. -/
def makeDir (d : Disk) (p : FilePath) : Except IoKind Disk :=
  match d.locateName p with
  | .error e => .error e
  | .ok (.found ..) => .error .alreadyExists
  | .ok (.vacant place _) => .ok (d.put place .dir)

/-- Makes a link. -/
def makeLink (d : Disk) (p : FilePath) (target : String) : Except IoKind Disk :=
  match d.locateName p with
  | .error e => .error e
  | .ok (.found ..) => .error .alreadyExists
  | .ok (.vacant place _) =>
    if endsInSlash p then .error .notFound else .ok (d.put place (.link target))

/-- Makes a directory; one that is there already will do. -/
def ensureDir (d : Disk) (p : FilePath) : Except IoKind Disk :=
  match d.makeDir p with
  | .ok d => .ok d
  | .error e => if d.isDir p then .ok d else .error e

/-- Makes the first directory of a list, and before it those of the others that
it needs. -/
def ensureDirs (d : Disk) : List FilePath → Except IoKind Unit × Disk
  | [] => (.ok (), d)
  | p :: around =>
    match d.ensureDir p with
    | .ok d => (.ok (), d)
    | .error .notFound =>
      match ensureDirs d around with
      | (.ok (), d) =>
        match d.ensureDir p with
        | .ok d => (.ok (), d)
        | .error e => (.error e, d)
      | r => r
    | .error e => (.error e, d)

/-- Makes a directory, and the directories around it that are missing. -/
def makeDirs (d : Disk) (p : FilePath) : Except IoKind Unit × Disk :=
  if p.text = "" then (.ok (), d) else d.ensureDirs (p :: p.around)

/-! ### Renaming and removing -/

/-- Gives a file another path; what stands there is replaced, unless it is a
directory. -/
def rename (d : Disk) (source target : FilePath) : Except IoKind Disk :=
  match d.locateName source with
  | .error e => .error e
  | .ok (.vacant ..) => .error .notFound
  | .ok (.found _ .dir) => .error .other
  | .ok (.found place e) =>
    match d.locateName target with
    | .error e => .error e
    | .ok (.vacant place' _) =>
      if endsInSlash target then .error .notADirectory else .ok ((d.drop place).put place' e)
    | .ok (.found place' e') =>
      if !(lastStep? target).all FilePath.isName then .error .resourceBusy
      else if endsInSlash target then .error .notADirectory
      else if e' = .dir then .error .isADirectory
      else .ok ((d.drop place).put place' e)

/-- Removes a file or a link. -/
def removeFile (d : Disk) (p : FilePath) : Except IoKind Disk :=
  match d.locateName p with
  | .error e => .error e
  | .ok (.vacant ..) => .error .notFound
  | .ok (.found _ .dir) => .error .isADirectory
  | .ok (.found place _) => if endsInSlash p then .error .notADirectory else .ok (d.drop place)

/-- Removes an empty directory. -/
def removeDir (d : Disk) (p : FilePath) : Except IoKind Disk :=
  match d.locateName p with
  | .error e => .error e
  | .ok (.vacant ..) => .error .notFound
  | .ok (.found place .dir) =>
    match lastStep? p with
    | none => .error .resourceBusy
    | some step =>
      if step = FilePath.hereName then .error .invalidInput
      else if step = FilePath.upName then .error .directoryNotEmpty
      else if (d.below place).isEmpty then .ok (d.drop place)
      else .error .directoryNotEmpty
  | .ok (.found ..) => .error .notADirectory

/-- Removes a directory with everything below it. A link is removed itself; it is
not followed. If the path leads nowhere once the directory is empty, the
directory stays. -/
def removeTree (d : Disk) (p : FilePath) : Except IoKind Unit × Disk :=
  match d.locate false p with
  | .error e => (.error e, d)
  | .ok (.vacant ..) => (.error .notFound, d)
  | .ok (.found place (.link _)) => (.ok (), d.drop place)
  | .ok (.found _ (.file _)) => (.error .notADirectory, d)
  | .ok (.found place .dir) =>
    let cleared := d.dropBelow place
    match cleared.removeDir p with
    | .ok d => (.ok (), d)
    | .error .notFound => (.ok (), cleared)
    | .error e => (.error e, cleared)

end KeyedSeries.Disk

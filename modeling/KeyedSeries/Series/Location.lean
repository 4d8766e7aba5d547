import KeyedSeries.Failure

/-!
# Where series are stored

A series is addressed by a path of segments with dots between them. Below the
directory of its unit every segment is one directory entry, and so a series
never lies outside of its unit (`KeyedSeries.Location.file`). The way back from
a file to its path is `KeyedSeries.Location.seriesPath?`.
-/

namespace KeyedSeries.Location

/-- What stands between the segments of a series path. -/
def separator : Char := '.'

/-- The segments of a series path that are not empty. -/
def segments (path : String) : List String :=
  ((pieces separator path.toList).filter (· ≠ [])).map String.ofList

/-- The directory of a unit. -/
def unitDir (root : FilePath) (unit : String) : Except Failure FilePath :=
  if FilePath.isEntryName unit then .ok (root.child unit) else .error (.argument (.unit unit))

/-- The path that segments lead to from a directory. -/
def descend (base : FilePath) : List String → Except Failure FilePath
  | [] => .ok base
  | s :: rest =>
    if FilePath.isEntryName s then descend (base.child s) rest
    else .error (.argument (.segment s))

/-- The file of a series below a directory. -/
def fileBelow (base : FilePath) (path : String) : Except Failure FilePath :=
  match segments path with
  | [] => .error (.argument (.noSeries path))
  | ss => descend base ss

/-- The file of a series of a unit. -/
def file (root : FilePath) (unit path : String) : Except Failure FilePath :=
  match unitDir root unit with
  | .ok base => fileBelow base path
  | .error e => .error e

/-- The path of the series that a file below a directory holds. -/
def seriesPath? (base file : FilePath) : Option String :=
  match base.below? file with
  | some (c :: cs) =>
    if (c :: cs).all FilePath.isName then
      some ((String.singleton separator).intercalate (c :: cs))
    else none
  | _ => none

end KeyedSeries.Location

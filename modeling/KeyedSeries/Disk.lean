import KeyedSeries.Failure
import KeyedSeries.OrderedMap
import KeyedSeries.Text.Utf8

/-!
# Disks

A disk is a map from places to entries. A place is the list of names that lead
to it from the root, so that whatever lies below a directory has the directory's
place as the start of its own. Links hold a path as text and are followed, or
not, by whoever walks along a path (`KeyedSeries.Disk.locate`).

Relative paths start at the root. There may be forty links on the way, and a
name may have 255 bytes. A path as a whole may be of any length here: systems
set a limit to it as well, often of 4096 bytes, and what is said of a disk is
meant for paths within theirs.
-/

namespace KeyedSeries

/-- The names that lead from the root to an entry. -/
abbrev Place := List String

/-- What stands at a place. -/
inductive Entry where
  /-- A file. -/
  | file (content : Bytes)
  /-- A directory. -/
  | dir
  /-- A link to another path. -/
  | link (target : String)
  deriving DecidableEq, Repr

/-- The entries below the root. -/
structure Disk where
  /-- The entries by place. -/
  entries : OrderedMap Place Entry
  deriving DecidableEq

namespace Disk

/-- The disk on which there is nothing. -/
def empty : Disk := ⟨.empty⟩

/-- What stands at a place; the root is a directory. -/
def entry? (d : Disk) (p : Place) : Option Entry :=
  if p = [] then some .dir else d.entries.get? p

/-- Puts an entry at a place. -/
def put (d : Disk) (p : Place) (e : Entry) : Disk := ⟨d.entries.insert p e⟩

/-- Takes the entry of a place away. -/
def drop (d : Disk) (p : Place) : Disk := ⟨d.entries.erase p⟩

/-- Takes away what lies below a place, but not what stands at it. -/
def dropBelow (d : Disk) (p : Place) : Disk :=
  ⟨d.entries.filter fun q _ => !(p.isPrefixOf q && q != p)⟩

/-- The entries below a place, by the names that lead to them from there. -/
def below (d : Disk) (p : Place) : List (List String × Entry) :=
  d.entries.toList.filterMap fun (q, e) =>
    if p.isPrefixOf q && q != p then some (q.drop p.length, e) else none

/-! ### Walking -/

/-- Where a path leads. -/
inductive Spot where
  /-- To an entry. -/
  | found (place : Place) (entry : Entry)
  /-- To a place in a directory where nothing stands; whether a slash follows
  the name. -/
  | vacant (place : Place) (slash : Bool)
  deriving DecidableEq, Repr

/-- Where a walk stops: at the end of the path, or at a link in the directory
`base` behind which the walk goes on. -/
inductive Stop where
  /-- At the end. -/
  | spot (s : Spot)
  /-- At a link. -/
  | detour (base : Place) (target : String) (rest : List String)

/-- The longest name of an entry, in bytes. -/
def nameLimit : Nat := 255

/-- How many links there may be on the way. -/
def linkLimit : Nat := 40

/-- The steps of a written path. -/
def stepsOf (text : String) : List String := (pieces '/' text.toList).map String.ofList

/-- Walks from a directory up to the first link that has to be followed. The last
step follows a link only if `follow` says so. -/
def descend (d : Disk) (follow : Bool) (here : Place) : List String → Except IoKind Stop
  | [] => .ok (.spot (.found here .dir))
  | name :: rest =>
    if name = "" ∨ name = FilePath.hereName then descend d follow here rest
    else if name = FilePath.upName then descend d follow here.dropLast rest
    else if nameLimit < name.utf8ByteSize then .error .invalidFilename
    else
      match d.entry? (here ++ [name]) with
      | none =>
        if rest.all (· = "") then .ok (.spot (.vacant (here ++ [name]) (!rest.isEmpty)))
        else .error .notFound
      | some .dir => descend d follow (here ++ [name]) rest
      | some (.file content) =>
        if rest.isEmpty then .ok (.spot (.found (here ++ [name]) (.file content)))
        else .error .notADirectory
      | some (.link target) =>
        if rest.isEmpty && !follow then .ok (.spot (.found (here ++ [name]) (.link target)))
        else .ok (.detour here target rest)

/-- Walks from a directory to the end of the path, through as many stretches
between links as are allowed. -/
def walk (d : Disk) (follow : Bool) : (stretches : Nat) → Place → List String → Except IoKind Spot
  | 0, _, _ => .error .filesystemLoop
  | stretches + 1, here, steps =>
    match d.descend follow here steps with
    | .error e => .error e
    | .ok (.spot s) => .ok s
    | .ok (.detour base target rest) =>
      let start := if FilePath.isRooted ⟨target⟩ then [] else base
      walk d follow stretches start (stepsOf target ++ rest)

/-- Where a path leads; whether a link at its end is followed. -/
def locate (d : Disk) (follow : Bool) (p : FilePath) : Except IoKind Spot :=
  if p.text = "" then .error .notFound
  else if p.text.toList.contains '\x00' then .error .invalidInput
  else d.walk follow (linkLimit + 1) [] (stepsOf p.text)

/-! ### Looking -/

/-- The place of a directory. -/
def dirPlace? (d : Disk) (p : FilePath) : Option Place :=
  match d.locate true p with
  | .ok (.found place .dir) => some place
  | _ => none

/-- Whether a path leads to a directory. -/
def isDir (d : Disk) (p : FilePath) : Bool := (d.dirPlace? p).isSome

/-- Whether a path leads to a file. -/
def isFile (d : Disk) (p : FilePath) : Bool :=
  match d.locate true p with
  | .ok (.found _ (.file _)) => true
  | _ => false

/-- Whether a path leads to anything. -/
def exists? (d : Disk) (p : FilePath) : Bool :=
  match d.locate true p with
  | .ok (.found ..) => true
  | _ => false

/-- The content of a file. -/
def read (d : Disk) (p : FilePath) : Except IoKind Bytes :=
  match d.locate true p with
  | .error e => .error e
  | .ok (.found _ (.file content)) => .ok content
  | .ok (.found ..) => .error .isADirectory
  | .ok (.vacant ..) => .error .notFound

/-- The path without links that leads where the given one leads. -/
def canonical (d : Disk) (p : FilePath) : Except IoKind FilePath :=
  match d.locate true p with
  | .error e => .error e
  | .ok (.found place _) => .ok (.ofComponents (FilePath.rootName :: place))
  | .ok (.vacant ..) => .error .notFound

end Disk

end KeyedSeries

import KeyedSeries.Text.Pieces

/-!
# Paths of the file system

A path is kept as it is written. What it says is in its **components**
(`KeyedSeries.FilePath.components`): repeated slashes, a slash at the end and
single dots do not count, except for a dot that starts a relative path. Two
paths are the same path if their components are.
-/

namespace KeyedSeries

/-- A path, as it is written. -/
structure FilePath where
  /-- The text. -/
  text : String
  deriving DecidableEq, Repr, Inhabited

namespace FilePath

/-! ### Components -/

/-- The component that stands for the root. -/
def rootName : String := "/"

/-- The component that stands for the directory one is in. -/
def hereName : String := "."

/-- The component that stands for the directory above. -/
def upName : String := ".."

/-- The pieces of a path that count behind its start. -/
def names (ps : List (List Char)) : List String :=
  (ps.filter fun p => p ≠ [] ∧ p ≠ ['.']).map String.ofList

/-- The components of a written path. -/
def componentsOf : List Char → List String
  | '/' :: rest => rootName :: names (pieces '/' rest)
  | t =>
    match pieces '/' t with
    | ['.'] :: rest => hereName :: names rest
    | ps => names ps

/-- The components of a path. -/
def components (p : FilePath) : List String := componentsOf p.text.toList

/-- Whether a path starts at the root. -/
def isRooted (p : FilePath) : Bool := p.text.toList.head? == some '/'

/-- Whether a component is the name of an entry, and not the root or a step to
the same directory or the one above. -/
def isName (c : String) : Bool := c != rootName && c != hereName && c != upName

/-- Whether a text is the name of one entry of a directory. -/
def isEntryName (name : String) : Bool := name != "" && !name.toList.contains '/' && isName name

/-! ### Going up and down -/

/-- The path of an entry of a directory. -/
def child (base : FilePath) (name : String) : FilePath :=
  if base.text = "" || base.text.toList.getLast? == some '/' then ⟨base.text ++ name⟩
  else ⟨base.text ++ "/" ++ name⟩

/-- The path of given components. -/
def ofComponents : List String → FilePath
  | [] => ⟨""⟩
  | c :: rest =>
    if c = rootName then ⟨rootName ++ "/".intercalate rest⟩ else ⟨"/".intercalate (c :: rest)⟩

/-- The path without its last component. Neither the root nor the empty path has
one. -/
def parent? (p : FilePath) : Option FilePath :=
  match p.components with
  | [] => none
  | [c] => if c = rootName then none else some ⟨""⟩
  | cs => some (ofComponents cs.dropLast)

/-- The paths of the directories around a path, the innermost one first. -/
def around (p : FilePath) : List FilePath :=
  let cs := p.components
  (List.range (cs.length - 1)).map fun i => ofComponents (cs.take (cs.length - 1 - i))

/-- The last component, if it is a name. -/
def fileName? (p : FilePath) : Option String := p.components.getLast?.filter isName

/-- The components of a path below a base; `none` if it is not there. -/
def below? (base file : FilePath) : Option (List String) :=
  if base.components.isPrefixOf file.components then
    some (file.components.drop base.components.length)
  else none

/-- The path written from the root on: without single dots and repeated slashes,
but with its steps upwards, with a slash at its end, and with two slashes at its
start if there were two. A relative path is taken to start at the root. -/
def absolute (p : FilePath) : FilePath :=
  let t := p.text.toList
  let kept := p.components.filter fun c => c != rootName && c != hereName
  let slashes := (t.takeWhile (· == '/')).length
  let start := if slashes = 2 then "//" else "/"
  let stop := if kept != [] && t.getLast? == some '/' then "/" else ""
  ⟨start ++ "/".intercalate kept ++ stop⟩

end FilePath

end KeyedSeries

import KeyedSeries.Toml.Reader

/-!
# Configuration documents

The statements of a document make tables. A table comes into being in one of
four ways (`KeyedSeries.TableOrigin`), and that decides what may be added to it
later: a table may have one header, a table that only keys with dots have made
grows by such keys, and a table in braces is complete.
-/

namespace KeyedSeries

/-- How a table came into being. -/
inductive TableOrigin where
  /-- By its own header, or as the document itself. -/
  | header
  /-- By the header of a table below it. -/
  | implied
  /-- By a key with dots. -/
  | dotted
  /-- As a value in braces. -/
  | braces
  deriving DecidableEq, Repr

/-- What stands under a key of a document. -/
inductive TomlNode where
  /-- A text. -/
  | text (s : String)
  /-- A plain value. -/
  | scalar (x : TomlScalar)
  /-- A list of values. -/
  | array (items : List TomlNode)
  /-- A table. -/
  | table (origin : TableOrigin) (entries : List (String × TomlNode))
  /-- Tables under one name, in order. -/
  | tables (elements : List (List (String × TomlNode)))

/-- The entries of a table. -/
abbrev TomlEntries := List (String × TomlNode)

namespace TomlEntries

/-- What stands under a key. -/
def get? (entries : TomlEntries) (key : String) : Option TomlNode := entries.lookup key

/-- Puts a node under a key that has nothing or another node. -/
def put (entries : TomlEntries) (key : String) (n : TomlNode) : TomlEntries :=
  entries.filter (·.1 != key) ++ [(key, n)]

/-- Adds to the table at the end of a path; tables on the way that are not there
yet come into being as `made`. `add` is told how the table at the end came into
being. Keys with dots do not go through tables that have a header. -/
def addUnder (made : TableOrigin) (add : TableOrigin → TomlEntries → Option TomlEntries) :
    List String → TableOrigin → TomlEntries → Option TomlEntries
  | [], origin, entries => add origin entries
  | key :: path, _, entries =>
    match entries.get? key with
    | none => (addUnder made add path made []).map fun sub => entries.put key (.table made sub)
    | some (.table origin sub) =>
      if origin = .braces ∨ (made = .dotted ∧ origin = .header) then none
      else
        (addUnder made add path origin sub).map fun sub => entries.put key (.table origin sub)
    | some (.tables elements) =>
      match elements.getLast? with
      | none => none
      | some last =>
        (addUnder made add path .header last).map fun sub =>
          entries.put key (.tables (elements.dropLast ++ [sub]))
    | some _ => none

/-- Adds a value under a key with dots. The table at its end has to be one that
keys with dots have made, and the last part of the key has to be new there. -/
def addPair (entries : TomlEntries) (path : List String) (n : TomlNode) : Option TomlEntries :=
  match path.getLast? with
  | none => none
  | some key =>
    let add := fun (origin : TableOrigin) (entries : TomlEntries) =>
      if (path.length ≠ 1 ∧ origin ≠ .dotted) ∨ (entries.get? key).isSome then none
      else some (entries.put key n)
    addUnder .dotted add path.dropLast .header entries

/-- What stands at the end of a path of tables; there is no answer if something
on the way is no table. -/
def find? : List String → TomlEntries → Option (Option TomlNode)
  | [], _ => none
  | [key], entries => some (entries.get? key)
  | key :: path, entries =>
    match entries.get? key with
    | none => some none
    | some (.table origin sub) => if origin = .braces then none else find? path sub
    | some (.tables elements) =>
      match elements.getLast? with
      | none => none
      | some last => find? path last
    | some _ => none

end TomlEntries

mutual

/-- What a written value stands for. -/
def TomlNode.ofValue? : TomlValue → Option TomlNode
  | .text s => some (.text s)
  | .scalar x => some (.scalar x)
  | .array items => (TomlNode.ofValues? items).map .array
  | .table pairs => (TomlNode.ofPairs? [] pairs).map (.table .braces)

/-- What written values stand for. -/
def TomlNode.ofValues? : List TomlValue → Option (List TomlNode)
  | [] => some []
  | v :: rest =>
    match TomlNode.ofValue? v, TomlNode.ofValues? rest with
    | some n, some ns => some (n :: ns)
    | _, _ => none

/-- The table that pairs make out of the entries before them. -/
def TomlNode.ofPairs? (entries : TomlEntries) :
    List (List String × TomlValue) → Option TomlEntries
  | [] => some entries
  | (path, v) :: rest =>
    match TomlNode.ofValue? v with
    | none => none
    | some n =>
      match entries.addPair path n with
      | none => none
      | some entries => TomlNode.ofPairs? entries rest

end

/-- Which table the pairs of a document go to at a place in it. -/
inductive TomlSection where
  /-- The document itself. -/
  | document
  /-- The table of a header. -/
  | table (path : List String)
  /-- The newest table of a list. -/
  | element (path : List String)

/-- A document that is being put together. -/
structure TomlDraft where
  /-- The finished tables. -/
  root : TomlEntries
  /-- Which table is being filled. -/
  place : TomlSection
  /-- The table that is being filled. -/
  entries : TomlEntries

namespace TomlDraft

/-- Puts the finished table into its place. -/
def close (d : TomlDraft) : Option TomlEntries :=
  match d.place with
  | .document => some d.entries
  | .table path =>
    path.getLast?.bind fun key =>
      TomlEntries.addUnder .implied
        (fun _ entries => some (entries.put key (.table .header d.entries)))
        path.dropLast .header d.root
  | .element path =>
    path.getLast?.bind fun key =>
      TomlEntries.addUnder .implied
        (fun _ entries =>
          match entries.get? key with
          | none => some (entries.put key (.tables [d.entries]))
          | some (.tables elements) =>
            some (entries.put key (.tables (elements ++ [d.entries])))
          | some _ => none)
        path.dropLast .header d.root

/-- Goes on by one statement. -/
def step (d : TomlDraft) : TomlStatement → Option TomlDraft
  | .pair path v => do
    let n ← TomlNode.ofValue? v
    let entries ← d.entries.addPair path n
    some { d with entries }
  | .header path => do
    let root ← d.close
    match ← TomlEntries.find? path root with
    | none => some ⟨root, .table path, []⟩
    | some (.table .implied entries) => some ⟨root, .table path, entries⟩
    | some _ => none
  | .element path => do
    let root ← d.close
    match ← TomlEntries.find? path root with
    | none | some (.tables _) => some ⟨root, .element path, []⟩
    | some _ => none

end TomlDraft

/-- The entries of a document. -/
def TomlEntries.ofText? (text : String) : Option TomlEntries := do
  let statements ← TomlStatement.ofText? text
  let draft ← statements.foldlM TomlDraft.step ⟨[], .document, []⟩
  draft.close

end KeyedSeries

import KeyedSeries.Json.Reader
import KeyedSeries.Series.Table
import KeyedSeries.Value.Stored

/-!
# Series documents

A file of a unit holds one series as a document: its type, its tags, and its
records by key. Written documents have no blanks, tags in the order of their
names and records in the order of their keys
(`KeyedSeries.Document.bytes`). A document that is read may leave out the tags
and the records, may hold more than that, and may be a list instead
(`KeyedSeries.Document.ofBytes?`); its keys have to be written exactly as
integers are.
-/

namespace KeyedSeries

/-- A series as it is stored. -/
structure Document where
  /-- The type of the values. -/
  dataType : DataType
  /-- The tags. -/
  tags : Tags
  /-- The values by key. -/
  records : OrderedMap Key Value
  deriving DecidableEq

namespace Document

/-! ### Writing -/

/-- Tags as they are stored. -/
def tagsJson (tags : Tags) : JsonTree :=
  .ofMembers (tags.toList.map fun (name, value) => (name, .ofText value))

/-- Records as they are stored. -/
def recordsJson (records : OrderedMap Key Value) : JsonTree :=
  .object (records.toList.map fun (key, value) => (Numeral.ofInt key.toInt, value.toJson))

/-- The document as a tree. -/
def toJson (doc : Document) : JsonTree :=
  .ofMembers [("data_type", .ofText doc.dataType.label), ("tags", tagsJson doc.tags),
    ("records", recordsJson doc.records)]

/-- The document as it is written. -/
def bytes (doc : Document) : Bytes := doc.toJson.bytes

/-! ### Reading -/

/-- The tags that a tree stands for; of several with one name the last one. -/
def tags? (t : JsonTree) : Option Tags := do
  let members ← t.members?
  let tags ← members.mapM fun (name, value) => value.text?.map (name, ·)
  some (.ofList tags)

/-- The key that a name in a document is. -/
def key? (name : Bytes) : Option Key := do
  let i ← (JsonTree.number name).intIn? Int64.minValue.toInt Int64.maxValue.toInt
  some (.ofInt i)

/-- The records that a tree stands for; of several with one key the last one. -/
def records? : JsonTree → Option (OrderedMap Key Value)
  | .object members => do
    let records ← members.mapM fun (name, value) => do
      some (← key? name, ← Value.ofJson? value)
    some (.ofList records)
  | _ => none

/-- What a field holds that may be missing. -/
def fieldOr {α : Type} (default : α) (f : JsonTree → Option α) : Option JsonTree → Option α
  | none => some default
  | some t => f t

/-- The document that a tree stands for. -/
def ofJson? (t : JsonTree) : Option Document := do
  match ← t.record? ["data_type", "tags", "records"] with
  | [some dataType, tags, records] =>
    some
      { dataType := ← DataType.ofJson? dataType
        tags := ← fieldOr .empty tags? tags
        records := ← fieldOr .empty records? records }
  | _ => none

/-- The document that bytes stand for. -/
def ofBytes? (b : Bytes) : Option Document := (JsonTree.ofBytes? b).bind ofJson?

end Document

end KeyedSeries

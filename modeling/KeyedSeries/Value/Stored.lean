import KeyedSeries.Json.Tree
import KeyedSeries.Value

/-!
# Values in documents

A value is stored together with its type: as a record of the type's label under
`t` and the content under `v` (`KeyedSeries.Value.toJson`). Numbers that are not
finite have no numeral and are stored as nothing at all; bytes are stored as a
list of small integers. Reading asks for the content that the label demands and
takes no other for it (`KeyedSeries.Value.ofJson?`).
-/

namespace KeyedSeries

/-- The numeral of a finite number; others have none. -/
def BinaryFloat.toJson {f : BinaryFormat} (x : BinaryFloat f) : JsonTree :=
  match x.datum with
  | .finite s m e => .number (((NumberStyle.stored f).finiteText f s m e).map Bytes.ascii)
  | _ => .null

/-- The type of a label in a document. -/
def DataType.ofJson? (t : JsonTree) : Option DataType := t.label?.bind ofLabel?

/-- The integer of a document, if it lies between two bounds. -/
def JsonTree.intIn? (least greatest : Int) (t : JsonTree) : Option Int :=
  t.int?.filter fun i => least ≤ i && i ≤ greatest

namespace Value

/-- What is stored of a value besides its type. -/
def contentJson : Value → JsonTree
  | boolean b => .bool b
  | integer i => .ofInt i.toInt
  | long i => .ofInt i.toInt
  | float x => x.toJson
  | double x => x.toJson
  | binary b => .array (b.map fun byte => .ofInt byte.toNat)

/-- The value as it is stored. -/
def toJson (v : Value) : JsonTree :=
  .ofMembers [("t", .ofText v.dataType.label), ("v", v.contentJson)]

/-- The value of a type that a content stands for. -/
def ofContent? (t : JsonTree) : DataType → Option Value
  | .boolean =>
    match t with
    | .bool b => some (boolean b)
    | _ => none
  | .integer =>
    (t.intIn? Int32.minValue.toInt Int32.maxValue.toInt).map fun i => integer (.ofInt i)
  | .long => (t.intIn? Int64.minValue.toInt Int64.maxValue.toInt).map fun i => long (.ofInt i)
  | .float => (t.numeral?.bind (·.single?)).map float
  | .double => (t.numeral?.bind (·.double?)).map double
  | .binary =>
    match t with
    | .array items =>
      (items.mapM fun (item : JsonTree) => (item.intIn? 0 255).map (·.toNat.toUInt8)).map binary
    | _ => none

/-- The value that a document stands for. -/
def ofJson? (t : JsonTree) : Option Value :=
  match t.record? ["t", "v"] with
  | some [some label, some content] => (DataType.ofJson? label).bind (ofContent? content)
  | _ => none

end Value

end KeyedSeries

import KeyedSeries.Number.Style
import KeyedSeries.Text.Utf8

/-!
# Cells

The values a series can hold, their types, and the text a value is shown as.
Bytes double as text where they are UTF-8.
-/

namespace KeyedSeries

/-- The type that all cells of a series share. -/
inductive DataType where
  /-- Truth values. -/
  | boolean
  /-- Signed integers of 32 bits. -/
  | integer
  /-- Signed integers of 64 bits. -/
  | long
  /-- Floating-point numbers of 32 bits. -/
  | float
  /-- Floating-point numbers of 64 bits. -/
  | double
  /-- Bytes, and so also text. -/
  | binary
  deriving DecidableEq, Repr

namespace DataType

/-- Whether cells of the type are numbers. -/
def isNumeric : DataType → Bool
  | integer | long | float | double => true
  | boolean | binary => false

/-- The name that messages show. -/
def text : DataType → String
  | boolean => "BOOLEAN"
  | integer => "INTEGER"
  | long => "LONG"
  | float => "FLOAT"
  | double => "DOUBLE"
  | binary => "BINARY"

/-- The name that documents carry. -/
def label : DataType → String
  | boolean => "Boolean"
  | integer => "Integer"
  | long => "Long"
  | float => "Float"
  | double => "Double"
  | binary => "Binary"

/-- All types. -/
def all : List DataType := [boolean, integer, long, float, double, binary]

/-- The type of a label, if it is one. -/
def ofLabel? (s : String) : Option DataType := all.find? (·.label == s)

@[simp] theorem ofLabel?_label (t : DataType) : ofLabel? t.label = some t := by
  cases t <;> decide

end DataType

/-- One cell. -/
inductive Value where
  /-- A truth value. -/
  | boolean (b : Bool)
  /-- A signed integer of 32 bits. -/
  | integer (i : Int32)
  /-- A signed integer of 64 bits. -/
  | long (i : Int64)
  /-- A floating-point number of 32 bits. -/
  | float (x : BinaryFloat .single)
  /-- A floating-point number of 64 bits. -/
  | double (x : BinaryFloat .double)
  /-- Bytes. -/
  | binary (b : Bytes)
  deriving DecidableEq, Repr

namespace Value

/-- The type of a value. -/
def dataType : Value → DataType
  | boolean _ => .boolean
  | integer _ => .integer
  | long _ => .long
  | float _ => .float
  | double _ => .double
  | binary _ => .binary

/-- The text that a value holds; only bytes in UTF-8 hold one. -/
def text? : Value → Option String
  | binary b => Bytes.toText? b
  | _ => none

/-- A value as it is shown: text in quotes, other bytes by their number. -/
def display : Value → String
  | boolean b => if b then "true" else "false"
  | integer i => toString i.toInt
  | long i => toString i.toInt
  | float x => x.text
  | double x => x.text
  | binary b =>
    match Bytes.toText? b with
    | some s => "\"" ++ s ++ "\""
    | none => s!"<{b.length} bytes>"

/-- The value that holds a text. -/
def ofText (s : String) : Value := binary (Bytes.ofText s)

end Value

end KeyedSeries

import KeyedSeries.Json.Numeral
import KeyedSeries.Json.Quoted

/-!
# Document trees

A document is a tree of lists and named members. Numerals and quoted texts are
kept as they are written, because what is asked of them depends on where they
stand: a member that nobody looks at may hold a numeral too large for any type.

This module holds the trees, how they are written without any blank
(`KeyedSeries.JsonTree.bytes`), and how a tree is looked at as a record of
given fields (`KeyedSeries.JsonTree.record?`).
-/

namespace KeyedSeries

/-- A document. -/
inductive JsonTree where
  /-- Nothing. -/
  | null
  /-- A truth value. -/
  | bool (b : Bool)
  /-- A numeral, as it is written. -/
  | number (text : Bytes)
  /-- A text, by its body. -/
  | string (body : Bytes)
  /-- A list. -/
  | array (items : List JsonTree)
  /-- Members by name; the names by their bodies. -/
  | object (members : List (Bytes × JsonTree))

namespace JsonTree

/-! ### Writing -/

mutual

/-- The tree as it is written. -/
def bytes : JsonTree → Bytes
  | null => [0x6e, 0x75, 0x6c, 0x6c]
  | bool true => [0x74, 0x72, 0x75, 0x65]
  | bool false => [0x66, 0x61, 0x6c, 0x73, 0x65]
  | number text => text
  | string body => 0x22 :: body ++ [0x22]
  | array [] => [0x5b, 0x5d]
  | array (item :: rest) => 0x5b :: item.bytes ++ itemsBytes rest
  | object [] => [0x7b, 0x7d]
  | object ((name, value) :: rest) =>
    0x7b :: 0x22 :: name ++ 0x22 :: 0x3a :: value.bytes ++ membersBytes rest

/-- The further items of a list, and its end. -/
def itemsBytes : List JsonTree → Bytes
  | [] => [0x5d]
  | item :: rest => 0x2c :: item.bytes ++ itemsBytes rest

/-- The further members of an object, and its end. -/
def membersBytes : List (Bytes × JsonTree) → Bytes
  | [] => [0x7d]
  | (name, value) :: rest =>
    0x2c :: 0x22 :: name ++ 0x22 :: 0x3a :: value.bytes ++ membersBytes rest

end

/-- A text as a tree. -/
def ofText (s : String) : JsonTree := string (Quoted.body s)

/-- An integer as a tree. -/
def ofInt (i : Int) : JsonTree := number (Numeral.ofInt i)

/-- An object of members with given names. -/
def ofMembers (members : List (String × JsonTree)) : JsonTree :=
  object (members.map fun (name, value) => (Quoted.body name, value))

/-! ### Looking at a tree -/

/-- The text, if the tree is one. -/
def text? : JsonTree → Option String
  | string body => Quoted.text? body
  | _ => none

/-- The numeral, if the tree is one. -/
def numeral? : JsonTree → Option Numeral
  | number text => Numeral.ofBytes? text
  | _ => none

/-- The integer, if the tree is one. -/
def int? (t : JsonTree) : Option Int := t.numeral?.bind (·.int?)

/-- The name of a choice without content: a text, or an object with nothing
under the name. -/
def label? : JsonTree → Option String
  | string body => Quoted.text? body
  | object [(name, null)] => Quoted.text? name
  | _ => none

/-- Members with their names as texts. -/
def named? : List (Bytes × JsonTree) → Option (List (String × JsonTree))
  | [] => some []
  | (name, value) :: rest =>
    match Quoted.text? name, named? rest with
    | some name, some rest => some ((name, value) :: rest)
    | _, _ => none

/-- The members, if the tree is an object whose names are texts. -/
def members? : JsonTree → Option (List (String × JsonTree))
  | object members => named? members
  | _ => none

/-- The member of a name, if there is one; a name that stands twice is refused. -/
def member? (members : List (String × JsonTree)) (name : String) : Option (Option JsonTree) :=
  match members.filter (·.1 == name) with
  | [] => some none
  | [(_, value)] => some (some value)
  | _ => none

/-- What a tree holds under each of the fields of a record. The record may be an
object, whose other members do not matter, or a list that gives the fields in
order and may leave out the last ones. -/
def record? (fields : List String) : JsonTree → Option (List (Option JsonTree))
  | array items =>
    if items.length ≤ fields.length then some ((List.range fields.length).map (items[·]?))
    else none
  | t => t.members?.bind fun members => fields.mapM (member? members)

end JsonTree

end KeyedSeries

import KeyedSeries.Json.Tree

/-!
# Reading document trees

The reader is strict: no comma too many, no comment, nothing behind the
document but blanks (`KeyedSeries.JsonTree.ofBytes?`). It goes down the document
with an allowance that every step spends from; twice the number of bytes is
always enough, because of two steps in a row one consumes a byte.
-/

namespace KeyedSeries.JsonTree

/-- Whether a byte is a blank. -/
def isBlank (b : UInt8) : Bool := b = 0x20 || b = 0x0a || b = 0x0d || b = 0x09

/-- The bytes from the first one on that is no blank. -/
def skipBlanks (b : Bytes) : Bytes := b.dropWhile isBlank

/-- Whether a byte can occur in a numeral. -/
def isNumeralByte (b : UInt8) : Bool :=
  Numeral.isDigit b || b = 0x2d || b = 0x2b || b = 0x2e || b = 0x65 || b = 0x45

/-- The numeral at the start of the bytes, and what comes behind it. -/
def readNumber? (b : Bytes) : Option (JsonTree × Bytes) :=
  let text := b.takeWhile isNumeralByte
  if (Numeral.ofBytes? text).isSome then some (number text, b.dropWhile isNumeralByte) else none

mutual

/-- The tree at the start of the bytes, and what comes behind it. -/
def readValue? : Nat → Bytes → Option (JsonTree × Bytes)
  | 0, _ => none
  | steps + 1, b =>
    match skipBlanks b with
    | 0x6e :: 0x75 :: 0x6c :: 0x6c :: rest => some (null, rest)
    | 0x74 :: 0x72 :: 0x75 :: 0x65 :: rest => some (bool true, rest)
    | 0x66 :: 0x61 :: 0x6c :: 0x73 :: 0x65 :: rest => some (bool false, rest)
    | 0x22 :: rest => (Quoted.split? rest).map fun (body, rest) => (string body, rest)
    | 0x5b :: rest =>
      match skipBlanks rest with
      | 0x5d :: rest => some (array [], rest)
      | rest => (readItems? steps rest).map fun (items, rest) => (array items, rest)
    | 0x7b :: rest =>
      match skipBlanks rest with
      | 0x7d :: rest => some (object [], rest)
      | rest => (readMembers? steps rest).map fun (members, rest) => (object members, rest)
    | rest => readNumber? rest

/-- The items of a list up to its end, and what comes behind it. -/
def readItems? : Nat → Bytes → Option (List JsonTree × Bytes)
  | 0, _ => none
  | steps + 1, b =>
    match readValue? steps b with
    | none => none
    | some (item, rest) =>
      match skipBlanks rest with
      | 0x5d :: rest => some ([item], rest)
      | 0x2c :: rest => (readItems? steps rest).map fun (items, rest) => (item :: items, rest)
      | _ => none

/-- The members of an object up to its end, and what comes behind it. -/
def readMembers? : Nat → Bytes → Option (List (Bytes × JsonTree) × Bytes)
  | 0, _ => none
  | steps + 1, b =>
    match skipBlanks b with
    | 0x22 :: rest =>
      match Quoted.split? rest with
      | none => none
      | some (name, rest) =>
        match skipBlanks rest with
        | 0x3a :: rest =>
          match readValue? steps rest with
          | none => none
          | some (value, rest) =>
            match skipBlanks rest with
            | 0x7d :: rest => some ([(name, value)], rest)
            | 0x2c :: rest =>
              (readMembers? steps rest).map fun (members, rest) => ((name, value) :: members, rest)
            | _ => none
        | _ => none
    | _ => none

end

/-- The tree that the bytes are. -/
def ofBytes? (b : Bytes) : Option JsonTree :=
  match readValue? (2 * b.length + 2) b with
  | some (t, rest) => if (skipBlanks rest).isEmpty then some t else none
  | none => none

end KeyedSeries.JsonTree

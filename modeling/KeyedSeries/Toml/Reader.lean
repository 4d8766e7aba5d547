import KeyedSeries.Toml.Quoted

/-!
# Reading configuration documents

A document is a sequence of statements: a pair of a key and a value, the header
of a table, or the header of one more table of a list
(`KeyedSeries.TomlStatement.ofText?`). Which tables the statements make is said
in `KeyedSeries.Toml.Tree`.

The reader goes through the characters with an allowance that every step spends
from; twice the number of characters is always enough.
-/

namespace KeyedSeries

/-- A value as it is written. -/
inductive TomlValue where
  /-- A text. -/
  | text (s : String)
  /-- A plain value. -/
  | scalar (x : TomlScalar)
  /-- A list. -/
  | array (items : List TomlValue)
  /-- A table in braces. -/
  | table (pairs : List (List String × TomlValue))

/-- A statement of a document. -/
inductive TomlStatement where
  /-- A value under a key with dots. -/
  | pair (path : List String) (value : TomlValue)
  /-- The header of a table. -/
  | header (path : List String)
  /-- The header of one more table of a list. -/
  | element (path : List String)

namespace TomlReader

/-- How deep values may be nested, and how many parts a key may have. -/
def limit : Nat := 80

/-- The characters from the first one on that is no blank. -/
def skipBlanks (cs : List Char) : List Char := cs.dropWhile TomlText.isBlank

/-- What comes behind blanks, line breaks and comments. A comment has to end with
its line. -/
def skipGaps (inComment : Bool) : List Char → Option (List Char)
  | [] => if inComment then none else some []
  | '\r' :: '\n' :: rest => skipGaps false rest
  | c :: rest =>
    if c == '\n' then skipGaps false rest
    else if inComment then (if TomlText.isPlain c then skipGaps true rest else none)
    else if TomlText.isBlank c then skipGaps false rest
    else if c == '#' then skipGaps true rest
    else some (c :: rest)

/-- What comes behind the end of a line, before which there may be blanks and a
comment. -/
def afterLine? (cs : List Char) : Option (List Char) :=
  let rest :=
    match skipBlanks cs with
    | '#' :: rest => rest.dropWhile TomlText.isPlain
    | rest => rest
  if rest.isEmpty then some [] else TomlText.afterBreak? rest

/-! ### Keys -/

/-- Whether a character can stand in a key without quotes. -/
def isBare (c : Char) : Bool :=
  TomlScalar.isDecimal c || ('a' ≤ c && c ≤ 'z') || ('A' ≤ c && c ≤ 'Z') || c == '-' || c == '_'

/-- One part of a key, and what comes behind it. -/
def keyPart? (cs : List Char) : Option (String × List Char) :=
  match cs.takeWhile isBare with
  | [] => TomlText.line? cs
  | part => some (String.ofList part, cs.dropWhile isBare)

/-- The parts of a key, with blanks and a dot between every two of them, and
what comes behind the key. -/
def keyParts? : Nat → List Char → Option (List String × List Char)
  | 0, _ => none
  | steps + 1, cs =>
    match keyPart? (skipBlanks cs) with
    | none => none
    | some (part, rest) =>
      match skipBlanks rest with
      | '.' :: rest => (keyParts? steps rest).map fun (parts, rest) => (part :: parts, rest)
      | rest => some ([part], rest)

/-- A key, and what comes behind it. -/
def key? (cs : List Char) : Option (List String × List Char) := keyParts? (limit - 1) cs

/-! ### Values -/

/-- Whether a character can stand in a plain value. -/
def isWordChar (c : Char) : Bool := isBare c || c == '+' || c == '.' || c == ':'

/-- A plain value, and what comes behind it. A time may stand behind a date with
a blank between them. -/
def word? (cs : List Char) : Option (TomlValue × List Char) :=
  let word := cs.takeWhile isWordChar
  let rest := cs.dropWhile isWordChar
  match rest with
  | ' ' :: more =>
    if TomlScalar.isDate word && TomlScalar.isZonedTime (more.takeWhile isWordChar) then
      some (.scalar .moment, more.dropWhile isWordChar)
    else (TomlScalar.ofWord? word).map fun x => (.scalar x, rest)
  | rest => (TomlScalar.ofWord? word).map fun x => (.scalar x, rest)

mutual

/-- A value, and what comes behind it; `depth` brackets are open around it. -/
def value? (depth : Nat) : Nat → List Char → Option (TomlValue × List Char)
  | 0, _ => none
  | steps + 1, cs =>
    match cs with
    | '[' :: rest =>
      if depth + 1 < limit then
        (items? (depth + 1) steps rest).map fun (items, rest) => (.array items, rest)
      else none
    | '{' :: rest =>
      if depth + 1 < limit then
        match skipBlanks rest with
        | '}' :: rest => some (.table [], rest)
        | rest => (pairs? (depth + 1) steps rest).map fun (pairs, rest) => (.table pairs, rest)
      else none
    | '"' :: _ | '\'' :: _ => (TomlText.any? cs).map fun (s, rest) => (.text s, rest)
    | _ => word? cs

/-- The items of a list up to its end, and what comes behind it. A comma may
stand behind the last one. -/
def items? (depth : Nat) : Nat → List Char → Option (List TomlValue × List Char)
  | 0, _ => none
  | steps + 1, cs =>
    match skipGaps false cs with
    | none => none
    | some (']' :: rest) => some ([], rest)
    | some rest =>
      match value? depth steps rest with
      | none => none
      | some (item, rest) =>
        match skipGaps false rest with
        | some (']' :: rest) => some ([item], rest)
        | some (',' :: rest) =>
          (items? depth steps rest).map fun (items, rest) => (item :: items, rest)
        | _ => none

/-- The pairs of a table in braces up to its end, and what comes behind it. -/
def pairs? (depth : Nat) : Nat → List Char → Option (List (List String × TomlValue) × List Char)
  | 0, _ => none
  | steps + 1, cs =>
    match key? cs with
    | some (path, '=' :: rest) =>
      match value? depth steps (skipBlanks rest) with
      | none => none
      | some (value, rest) =>
        match skipBlanks rest with
        | '}' :: rest => some ([(path, value)], rest)
        | ',' :: rest =>
          (pairs? depth steps rest).map fun (pairs, rest) => ((path, value) :: pairs, rest)
        | _ => none
    | _ => none

end

/-! ### Statements -/

/-- A statement, and what comes behind its line. -/
def statement? (cs : List Char) : Option (TomlStatement × List Char) :=
  match cs with
  | '[' :: '[' :: rest =>
    match key? rest with
    | some (path, ']' :: ']' :: rest) => (afterLine? rest).map (.element path, ·)
    | _ => none
  | '[' :: rest =>
    match key? rest with
    | some (path, ']' :: rest) => (afterLine? rest).map (.header path, ·)
    | _ => none
  | _ =>
    match key? cs with
    | some (path, '=' :: rest) =>
      match value? 0 (2 * cs.length) (skipBlanks rest) with
      | some (value, rest) => (afterLine? rest).map (.pair path value, ·)
      | none => none
    | _ => none

/-- The statements of a text. -/
def statements? : Nat → List Char → Option (List TomlStatement)
  | 0, _ => none
  | steps + 1, cs =>
    match skipBlanks cs with
    | [] => some []
    | '#' :: rest =>
      match afterLine? ('#' :: rest) with
      | some rest => statements? steps rest
      | none => none
    | rest =>
      match TomlText.afterBreak? rest with
      | some rest => statements? steps rest
      | none =>
        match statement? rest with
        | some (s, rest) => (statements? steps rest).map (s :: ·)
        | none => none

end TomlReader

/-- The statements of a document. A mark of the byte order may stand at its
start. -/
def TomlStatement.ofText? (text : String) : Option (List TomlStatement) :=
  let cs :=
    match text.toList with
    | '\uFEFF' :: rest => rest
    | cs => cs
  TomlReader.statements? (cs.length + 1) cs

end KeyedSeries

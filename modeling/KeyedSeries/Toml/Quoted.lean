import KeyedSeries.Toml.Scalar

/-!
# Quoted text in configuration documents

A text stands between double quotes, and then backslashes in it are escapes, or
between single quotes, and then they are not. Either kind may use three quotes;
such a text can have several lines, a line break right at its start does not
count, and up to two quotes may stand before the closing ones.
-/

namespace KeyedSeries.TomlText

/-- Whether a character can stand in a line. -/
def isPlain (c : Char) : Bool := c == '\t' || (' ' ≤ c && c != '\x7f')

/-- Whether a character is a blank. -/
def isBlank (c : Char) : Bool := c == ' ' || c == '\t'

/-- What comes behind a line break, if there is one. -/
def afterBreak? : List Char → Option (List Char)
  | '\n' :: rest => some rest
  | '\r' :: '\n' :: rest => some rest
  | _ => none

/-- The character of a code point; codes of no character are refused. -/
def charOf? (n : Nat) : Option Char := if h : n.isValidChar then some (Char.ofNatAux n h) else none

/-- The character that hexadecimal digits name. -/
def named? (ds : List Char) : Option Char :=
  if ds.all TomlScalar.isHex then charOf? (TomlScalar.numberOf 16 TomlScalar.isHex ds) else none

/-- The character that an escape of one letter stands for. -/
def letter? : Char → Option Char
  | 'b' => some '\x08'
  | 't' => some '\t'
  | 'n' => some '\n'
  | 'f' => some '\x0c'
  | 'r' => some '\r'
  | '"' => some '"'
  | '\\' => some '\\'
  | _ => none

/-- Puts a character before a text that was read. -/
def before (c : Char) (r : Option (List Char × List Char)) : Option (List Char × List Char) :=
  r.map fun (text, rest) => (c :: text, rest)

/-- A text with escapes up to its quote, and what comes behind it. -/
def escaped : List Char → Option (List Char × List Char)
  | '"' :: rest => some ([], rest)
  | '\\' :: 'u' :: a :: b :: c :: d :: rest =>
    (named? [a, b, c, d]).bind fun x => before x (escaped rest)
  | '\\' :: 'U' :: a :: b :: c :: d :: e :: f :: g :: h :: rest =>
    (named? [a, b, c, d, e, f, g, h]).bind fun x => before x (escaped rest)
  | '\\' :: c :: rest => (letter? c).bind fun x => before x (escaped rest)
  | c :: rest => if isPlain c && c != '\\' then before c (escaped rest) else none
  | [] => none

/-- A text without escapes up to its quote, and what comes behind it. -/
def literal : List Char → Option (List Char × List Char)
  | '\'' :: rest => some ([], rest)
  | c :: rest => if isPlain c then before c (literal rest) else none
  | [] => none

/-- What comes behind three quotes: up to two quotes before them belong to the
text. -/
def closing (quote : Char) : List Char → List Char × List Char
  | a :: b :: rest =>
    if a = quote ∧ b = quote then ([a, b], rest)
    else if a = quote then ([a], b :: rest)
    else ([], a :: b :: rest)
  | [a] => if a = quote then ([a], []) else ([], [a])
  | [] => ([], [])

/-- A text of several lines with escapes up to its quotes, and what comes behind
them. Blanks and line breaks behind a backslash at the end of a line are dropped;
`dropping` says that this goes on. -/
def escapedLines (dropping : Bool) : List Char → Option (List Char × List Char)
  | '"' :: '"' :: '"' :: rest => some (closing '"' rest)
  | '\\' :: 'u' :: a :: b :: c :: d :: rest =>
    (named? [a, b, c, d]).bind fun x => before x (escapedLines false rest)
  | '\\' :: 'U' :: a :: b :: c :: d :: e :: f :: g :: h :: rest =>
    (named? [a, b, c, d, e, f, g, h]).bind fun x => before x (escapedLines false rest)
  | '\r' :: '\n' :: rest =>
    if dropping then escapedLines true rest else before '\n' (escapedLines false rest)
  | '\\' :: c :: rest =>
    if (afterBreak? ((c :: rest).dropWhile isBlank)).isSome then
      match c with
      | '\r' =>
        match rest with
        | _ :: rest => escapedLines true rest
        | [] => none
      | _ => escapedLines true rest
    else (letter? c).bind fun x => before x (escapedLines false rest)
  | c :: rest =>
    if dropping && (isBlank c || c == '\n') then escapedLines true rest
    else if c == '\n' || (isPlain c && c != '\\') then before c (escapedLines false rest)
    else none
  | [] => none

/-- A text of several lines without escapes up to its quotes, and what comes
behind them. -/
def literalLines : List Char → Option (List Char × List Char)
  | '\'' :: '\'' :: '\'' :: rest => some (closing '\'' rest)
  | '\r' :: '\n' :: rest => before '\n' (literalLines rest)
  | c :: rest => if c == '\n' || isPlain c then before c (literalLines rest) else none
  | [] => none

/-- The text without a line break at its start. -/
def dropBreak (cs : List Char) : List Char := (afterBreak? cs).getD cs

/-- The text of one line at the start of the characters, and what comes behind
it. -/
def line? : List Char → Option (String × List Char)
  | '"' :: rest => (escaped rest).map fun (text, rest) => (String.ofList text, rest)
  | '\'' :: rest => (literal rest).map fun (text, rest) => (String.ofList text, rest)
  | _ => none

/-- The text at the start of the characters, and what comes behind it. -/
def any? : List Char → Option (String × List Char)
  | '"' :: '"' :: '"' :: rest =>
    (escapedLines false (dropBreak rest)).map fun (text, rest) => (String.ofList text, rest)
  | '\'' :: '\'' :: '\'' :: rest =>
    (literalLines (dropBreak rest)).map fun (text, rest) => (String.ofList text, rest)
  | cs => line? cs

end KeyedSeries.TomlText

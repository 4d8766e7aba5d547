import KeyedSeries.Regex.Written
import KeyedSeries.Unicode.Property

/-!
# Reading regular expressions

The pattern language: alternatives, groups with names and flags, repetitions,
classes with set operations, escapes. There is no look-around and no reference
to an earlier group. A text that is no pattern reads as `none`; what is wrong
with it is not told, because nobody asks.

Every step consumes a character, so the length of the text bounds the number of
steps, and `KeyedSeries.Written.read?` passes that bound on.
-/

namespace KeyedSeries

/-- A place in the text of a pattern. -/
structure PatternCursor where
  /-- What is left to read. -/
  rest : List Char
  /-- Whether blanks and comments are skipped here. -/
  skips : Bool
  /-- The names given to groups so far. -/
  names : List String

namespace PatternCursor

/-- Drops blanks and comments; a comment reaches to the end of its line. -/
def dropBlanks (inComment : Bool) : List Char → List Char
  | [] => []
  | c :: rest =>
    if inComment then dropBlanks (c != '\n') rest
    else if Unicode.isBlank c then dropBlanks false rest
    else if c == '#' then dropBlanks true rest
    else c :: rest

/-- What is left to read behind blanks and comments, where those are skipped. -/
def skipped (cur : PatternCursor) : List Char :=
  if cur.skips then dropBlanks false cur.rest else cur.rest

/-- Skips blanks and comments where they are to be skipped. -/
def skip (cur : PatternCursor) : PatternCursor := { cur with rest := cur.skipped }

/-- Goes on at `rest`, behind the blanks there. -/
def moveTo (cur : PatternCursor) (rest : List Char) : PatternCursor :=
  { cur with rest := rest }.skip

/-- Goes on at `rest`, where something has to follow. -/
def moveTo? (cur : PatternCursor) (rest : List Char) : Option PatternCursor :=
  let next := cur.moveTo rest
  if next.rest.isEmpty then none else some next

/-! ### Numbers -/

/-- Whether the character is a decimal digit of ASCII. -/
def isDigit (c : Char) : Bool := '0' ≤ c && c ≤ '9'

/-- Reads decimal digits into `digits`, at most `steps` of them. -/
def readDigits : Nat → PatternCursor → List Char → List Char × PatternCursor
  | 0, cur, digits => (digits.reverse, cur)
  | steps + 1, cur, digits =>
    match cur.rest with
    | c :: rest =>
      if isDigit c then readDigits steps (cur.moveTo rest) (c :: digits) else (digits.reverse, cur)
    | [] => (digits.reverse, cur)

/-- Skips blanks, which may stand around a number anywhere. -/
def dropSpaces (cur : PatternCursor) : PatternCursor :=
  { cur with rest := cur.rest.dropWhile Unicode.isBlank }

/-- Reads a number below `2 ^ 32` with blanks around it: `none` if there are no
digits, `some none` if the number is too large. -/
def readCount (cur : PatternCursor) : Option (Option Nat) × PatternCursor :=
  let cur := cur.dropSpaces
  let (digits, cur) := readDigits cur.rest.length cur []
  let cur := cur.dropSpaces.skip
  let n := digits.foldl (fun n c => 10 * n + (c.toNat - '0'.toNat)) 0
  (if digits.isEmpty then none else some (if n < UInt32.size then some n else none), cur)

/-! ### Characters given by their number -/

/-- The character with a number, if there is one. -/
def charOf? (n : Nat) : Option Char :=
  if n < 0xD800 ∨ (0xDFFF < n ∧ n < 0x110000) then some (Char.ofNat n) else none

/-- Reads exactly `count` hexadecimal digits. -/
def readHex : Nat → PatternCursor → List Char → Option (Char × PatternCursor)
  | 0, cur, digits => (charOf? (CharSet.hexNumber digits.reverse)).map fun c => (c, cur)
  | count + 1, cur, digits =>
    match cur.rest with
    | d :: rest =>
      if (CharSet.hexValue? d).isSome then readHex count (cur.moveTo rest) (d :: digits) else none
    | [] => none

/-- Reads hexadecimal digits up to a closing brace. -/
def readBracedHex : Nat → PatternCursor → List Char → Option (Char × PatternCursor)
  | 0, _, _ => none
  | steps + 1, cur, digits =>
    match cur.rest with
    | '\x7d' :: rest =>
      if digits.isEmpty then none
      else (charOf? (CharSet.hexNumber digits.reverse)).map fun c => (c, cur.moveTo rest)
    | d :: rest =>
      if (CharSet.hexValue? d).isSome then readBracedHex steps (cur.moveTo rest) (d :: digits)
      else none
    | [] => none

/-- Reads a character given by `count` hexadecimal digits, or by digits in
braces. -/
def readHexChar (count : Nat) (cur : PatternCursor) : Option (WrittenChar × PatternCursor) :=
  match cur.rest with
  | '\x7b' :: rest => do
    let next := cur.moveTo rest
    let (c, next) ← readBracedHex (rest.length + 1) next []
    some (⟨c, false⟩, next)
  | _ => do
    let (c, next) ← readHex count cur []
    some (⟨c, count == 2⟩, next)

/-! ### Properties -/

/-- Reads up to a closing brace. -/
def readBraced : Nat → PatternCursor → List Char → Option (List Char × PatternCursor)
  | 0, _, _ => none
  | steps + 1, cur, name =>
    match cur.rest with
    | '\x7d' :: rest => some (name.reverse, { cur with rest := rest })
    | c :: rest => readBraced steps (cur.moveTo rest) (c :: name)
    | [] => none

/-- Cuts a list at the first place where the separator stands. -/
def cutAt? (sep : List Char) : List Char → Option (List Char × List Char)
  | [] => none
  | c :: rest =>
    if sep.isPrefixOf (c :: rest) then some ([], (c :: rest).drop sep.length)
    else (cutAt? sep rest).map fun (a, b) => (c :: a, b)

/-- The query that stands in braces. The flag tells whether it asks for the
opposite. -/
def queryOf (name : List Char) : Bool × PropertyQuery :=
  match cutAt? ['!', '='] name with
  | some (kind, v) => (true, .value (String.ofList kind) (String.ofList v))
  | none =>
    match cutAt? [':'] name with
    | some (kind, v) => (false, .value (String.ofList kind) (String.ofList v))
    | none =>
      match cutAt? ['='] name with
      | some (kind, v) => (false, .value (String.ofList kind) (String.ofList v))
      | none => (false, .name (String.ofList name))

/-- Reads what stands behind `\p` or `\P`. -/
def readProperty (negated : Bool) (cur : PatternCursor) :
    Option (Bool × PropertyQuery × PatternCursor) :=
  match cur.rest with
  | '\x7b' :: rest => do
    let (name, next) ← readBraced (rest.length + 1) (cur.moveTo rest) []
    let (opposite, q) := queryOf name
    some (negated != opposite, q, next)
  | '\\' :: _ => none
  | c :: rest => some (negated, .name (String.singleton c), cur.moveTo rest)
  | [] => none

/-! ### Escapes -/

/-- What a backslash and the characters behind it stand for. -/
inductive Escape where
  /-- A character. -/
  | char (c : WrittenChar)
  /-- A condition on the place. -/
  | anchor (a : Anchor)
  /-- A class that has a letter. -/
  | letter (negated : Bool) (k : LetterClass)
  /-- The characters with a property. -/
  | property (negated : Bool) (q : PropertyQuery)

/-- Whether a backslash may stand before the character to mean the character
itself: all of ASCII but letters, digits and the angle brackets. -/
def isEscapable (c : Char) : Bool :=
  c.toNat < 128 && !c.isAlphanum && c != '<' && c != '>'

/-- Whether the character can stand in the name of a boundary. -/
def isBoundaryChar (c : Char) : Bool :=
  ('a' ≤ c && c ≤ 'z') || ('A' ≤ c && c ≤ 'Z') || c == '-'

/-- Reads the name of a boundary. -/
def readBoundaryName : Nat → PatternCursor → List Char → List Char × PatternCursor
  | 0, cur, name => (name.reverse, cur)
  | steps + 1, cur, name =>
    match cur.rest with
    | c :: rest =>
      if isBoundaryChar c then readBoundaryName steps (cur.moveTo rest) (c :: name)
      else (name.reverse, cur)
    | [] => (name.reverse, cur)

/-- Reads the kind of boundary behind `\b`: a name in braces, if there is one. A
brace with something else in it belongs to a repetition and is left alone. -/
def readBoundary (cur : PatternCursor) : Option (Anchor × PatternCursor) :=
  match cur.rest with
  | '\x7b' :: rest => do
    let inner ← cur.moveTo? rest
    match inner.rest with
    | c :: _ =>
      if isBoundaryChar c then
        let (name, next) := readBoundaryName inner.rest.length inner []
        match next.rest with
        | '\x7d' :: rest =>
          let next := { next with rest := rest }
          match String.ofList name with
          | "start" => some (.wordStart, next)
          | "end" => some (.wordEnd, next)
          | "start-half" => some (.noWordBefore, next)
          | "end-half" => some (.noWordBehind, next)
          | _ => none
        | _ => none
      else some (.boundary, cur)
    | [] => none
  | _ => some (.boundary, cur)

/-- Reads what stands behind a backslash. -/
def readEscape (cur : PatternCursor) : Option (Escape × PatternCursor) :=
  match cur.rest with
  | [] => none
  | c :: rest =>
    let plain : PatternCursor := { cur with rest := rest }
    let char (n : Nat) : Option (Escape × PatternCursor) :=
      some (.char ⟨Char.ofNat n, false⟩, plain)
    match c with
    | 'x' => do
      let (w, next) ← readHexChar 2 (← cur.moveTo? rest)
      some (.char w, next)
    | 'u' => do
      let (w, next) ← readHexChar 4 (← cur.moveTo? rest)
      some (.char w, next)
    | 'U' => do
      let (w, next) ← readHexChar 8 (← cur.moveTo? rest)
      some (.char w, next)
    | 'p' => do
      let (negated, q, next) ← readProperty false (← cur.moveTo? rest)
      some (.property negated q, next)
    | 'P' => do
      let (negated, q, next) ← readProperty true (← cur.moveTo? rest)
      some (.property negated q, next)
    | 'd' => some (.letter false .digit, plain)
    | 'D' => some (.letter true .digit, plain)
    | 's' => some (.letter false .space, plain)
    | 'S' => some (.letter true .space, plain)
    | 'w' => some (.letter false .word, plain)
    | 'W' => some (.letter true .word, plain)
    | 'a' => char 0x07
    | 'f' => char 0x0C
    | 't' => char 0x09
    | 'n' => char 0x0A
    | 'r' => char 0x0D
    | 'v' => char 0x0B
    | 'A' => some (.anchor .textStart, plain)
    | 'z' => some (.anchor .textEnd, plain)
    | 'b' => do
      let (a, next) ← readBoundary plain
      some (.anchor a, next)
    | 'B' => some (.anchor .noBoundary, plain)
    | '<' => some (.anchor .wordStart, plain)
    | '>' => some (.anchor .wordEnd, plain)
    | c => if isEscapable c then some (.char ⟨c, false⟩, plain) else none

/-! ### Classes -/

/-- Reads a class of ASCII such as `[:alpha:]`, behind its opening bracket. What
is no such class is left to be read as a class of its own. -/
def readNamedClass? (cur : PatternCursor) : Option (WrittenClass × PatternCursor) :=
  match cur.rest with
  | ':' :: rest =>
    let (negated, rest) := match rest with
      | '^' :: rest => (true, rest)
      | rest => (false, rest)
    let name := rest.takeWhile (· != ':')
    match rest.dropWhile (· != ':') with
    | ':' :: ']' :: rest =>
      (NamedClass.ofName? (String.ofList name)).map fun k =>
        (.named negated k, { cur with rest := rest })
    | _ => none
  | _ => none

/-- Reads one item of a class: a character or what an escape stands for. -/
def readClassItem (cur : PatternCursor) : Option (Escape × PatternCursor) :=
  match cur.rest with
  | '\\' :: rest => readEscape { cur with rest := rest }
  | c :: rest => some (.char ⟨c, false⟩, { cur with rest := rest })
  | [] => none

/-- The class that an item alone stands for; a condition on the place is none. -/
def Escape.toClass? : Escape → Option WrittenClass
  | .char c => some (.single c)
  | .anchor _ => none
  | .letter negated k => some (.letter negated k)
  | .property negated q => some (.property negated q)

/-- Reads an item of a class, or two with a dash between them. -/
def readClassRange (cur : PatternCursor) : Option (WrittenClass × PatternCursor) := do
  let (first, next) ← readClassItem cur
  let next := next.skip
  match next.rest with
  | [] => none
  | '-' :: rest =>
    match (next.moveTo rest).rest with
    | ']' :: _ | '-' :: _ =>
      let c ← first.toClass?
      some (c, next)
    | _ =>
      let (second, next) ← readClassItem (← next.moveTo? rest)
      match first, second with
      | .char a, .char b => if a.char ≤ b.char then some (.range a b, next) else none
      | _, _ => none
  | _ => do
    let c ← first.toClass?
    some (c, next)

/-- The class of all items; one alone stands for itself. -/
def classOf : List WrittenClass → WrittenClass
  | [c] => c
  | items => .union items

/-- The class built so far, and the operation that waits for its second class. -/
abbrev PendingOp := Option (ClassOp × WrittenClass)

/-- Gives the waiting operation its second class. -/
def finishOp (pending : PendingOp) (c : WrittenClass) : WrittenClass :=
  match pending with
  | none => c
  | some (k, a) => .op k a c

/-- Reads dashes at the start of a class, which stand for themselves. -/
def readLeadingDashes : Nat → PatternCursor → List WrittenClass →
    Option (List WrittenClass × PatternCursor)
  | 0, _, _ => none
  | steps + 1, cur, items =>
    match cur.rest with
    | '-' :: rest => do
      readLeadingDashes steps (← cur.moveTo? rest) (.single ⟨'-', false⟩ :: items)
    | _ => some (items, cur)

/-- Reads the start of a class, behind its opening bracket: whether it is negated,
and the characters that stand for themselves there. -/
def readClassStart (cur : PatternCursor) : Option (Bool × List WrittenClass × PatternCursor) := do
  let cur ← cur.moveTo? cur.rest
  let (negated, cur) ← match cur.rest with
    | '^' :: rest => (cur.moveTo? rest).map fun next => (true, next)
    | _ => some (false, cur)
  let (items, cur) ← readLeadingDashes (cur.rest.length + 1) cur []
  match items, cur.rest with
  | [], ']' :: rest => do
    let next ← cur.moveTo? rest
    some (negated, [.single ⟨']', false⟩], next)
  | _, _ => some (negated, items, cur)

/-- Reads the rest of a class up to its closing bracket; `items` are the ones
read since the last operation, last first. -/
def readClassBody : Nat → PatternCursor → PendingOp → List WrittenClass →
    Option (WrittenClass × PatternCursor)
  | 0, _, _, _ => none
  | steps + 1, cur, pending, items =>
    let cur := cur.skip
    let operate (k : ClassOp) (rest : List Char) :=
      readClassBody steps { cur with rest := rest }
        (some (k, finishOp pending (classOf items.reverse))) []
    match cur.rest with
    | [] => none
    | ']' :: rest => some (finishOp pending (classOf items.reverse), { cur with rest := rest })
    | '&' :: '&' :: rest => operate .inter rest
    | '-' :: '-' :: rest => operate .diff rest
    | '~' :: '~' :: rest => operate .symmDiff rest
    | '[' :: rest =>
      let inner : PatternCursor := { cur with rest := rest }
      match readNamedClass? inner with
      | some (c, next) => readClassBody steps next pending (c :: items)
      | none => do
        let (negated, first, next) ← readClassStart inner
        let (body, next) ← readClassBody steps next none first
        readClassBody steps next pending (.bracket negated body :: items)
    | _ => do
      let (c, next) ← readClassRange cur
      readClassBody steps next pending (c :: items)

/-- Reads a class, behind its opening bracket. -/
def readClass (cur : PatternCursor) : Option (Written × PatternCursor) := do
  let (negated, items, next) ← readClassStart cur
  let (body, next) ← readClassBody (cur.rest.length + 1) next none items
  some (.bracket negated body, next)

/-! ### Repetitions -/

/-- What a repetition may repeat: anything but nothing and a change of flags. -/
def repeatable : List Written → Option (Written × List Written)
  | .empty :: _ | .flags _ :: _ | [] => none
  | w :: before => some (w, before)

/-- Skips the sign that makes a repetition prefer few copies. -/
def dropLazy : List Char → List Char
  | '?' :: rest => rest
  | rest => rest

/-- Reads the bounds of a repetition, behind the opening brace. -/
def readBounds (cur : PatternCursor) : Option (Nat × Option Nat × PatternCursor) := do
  let cur ← cur.moveTo? cur.rest
  let (first, cur) := readCount cur
  let (least, most, cur) ← match cur.rest with
    | ',' :: rest => do
      let cur ← cur.moveTo? rest
      let least ← first.join
      match cur.rest with
      | '\x7d' :: _ => some (least, none, cur)
      | _ =>
        let (second, cur) := readCount cur
        let most ← second.join
        some (least, some most, cur)
    | _ => do
      let n ← first.join
      some (n, some n, cur)
  match cur.rest with
  | '\x7d' :: rest =>
    let next := cur.moveTo rest
    if most.all (least ≤ ·) then some (least, most, { next with rest := dropLazy next.rest })
    else none
  | _ => none

/-! ### Groups -/

/-- The flag of a letter. -/
def flagOf? : Char → Option PatternFlag
  | 'i' => some .ignoreCase
  | 'm' => some .multiLine
  | 's' => some .dotAll
  | 'U' => some .swapGreed
  | 'u' => some .unicode
  | 'R' => some .carriageReturn
  | 'x' => some .ignoreSpace
  | _ => none

/-- Reads flags up to a colon or a closing parenthesis, which is left. Flags
behind a dash are turned off; neither a dash nor a flag may stand twice, and a
dash may not stand last. -/
def readFlags (off dangling : Bool) (found : List (PatternFlag × Bool)) :
    List Char → Option (List (PatternFlag × Bool) × Bool × List Char)
  | [] => none
  | c :: rest =>
    if c == ':' || c == ')' then
      if dangling then none else some (found.reverse, off, c :: rest)
    else if c == '-' then
      if off then none else readFlags true true found rest
    else
      match flagOf? c with
      | none => none
      | some f =>
        if found.any (·.1 == f) then none else readFlags off false ((f, !off) :: found) rest

/-- Whether a character may stand in the name of a group. -/
def isNameChar (first : Bool) (c : Char) : Bool :=
  c == '_' || Unicode.alphabetic.contains c ||
    (!first && (c == '.' || c == '[' || c == ']' || Unicode.number.contains c))

/-- Reads the name of a group, up to and with the closing angle bracket. -/
def readName (name : List Char) : List Char → Option (String × List Char)
  | [] => none
  | '>' :: rest => if name.isEmpty then none else some (String.ofList name.reverse, rest)
  | c :: rest => if isNameChar name.isEmpty c then readName (c :: name) rest else none

/-- What an opening parenthesis starts. -/
inductive Opening where
  /-- A change of flags, and no group. -/
  | flags (changes : List (PatternFlag × Bool))
  /-- A group. -/
  | group (changes : List (PatternFlag × Bool))

/-- Reads what stands behind an opening parenthesis up to the body of the group.
Look-around is refused. -/
def readOpening (cur : PatternCursor) : Option (Opening × PatternCursor) :=
  let cur := cur.skip
  match cur.rest with
  | '?' :: '=' :: _ | '?' :: '!' :: _ | '?' :: '<' :: '=' :: _ | '?' :: '<' :: '!' :: _ => none
  | '?' :: 'P' :: '<' :: rest | '?' :: '<' :: rest => do
    let (name, rest) ← readName [] rest
    if cur.names.contains name then none
    else some (.group [], { cur with rest := rest, names := name :: cur.names })
  | '?' :: rest => do
    let (changes, off, rest) ← readFlags false false [] rest
    match rest with
    | ')' :: rest =>
      if changes.isEmpty && !off then none
      else some (.flags changes, { cur with rest := rest })
    | _ :: rest => some (.group changes, { cur with rest := rest })
    | [] => none
  | _ => some (.group [], cur)

/-- The state of a flag after changes. -/
def stateOf (f : PatternFlag) (changes : List (PatternFlag × Bool)) : Option Bool :=
  (changes.find? (·.1 == f)).map (·.2)

/-- Whether blanks are skipped after changes of flags. -/
def skipsAfter (skips : Bool) (changes : List (PatternFlag × Bool)) : Bool :=
  (stateOf .ignoreSpace changes).getD skips

/-! ### Expressions -/

/-- What an escape stands for outside of a class. -/
def Escape.toWritten : Escape → Written
  | .char c => .literal c
  | .anchor a => .anchor a
  | .letter negated k => .letter negated k
  | .property negated q => .property negated q

/-- Reads alternatives up to a closing parenthesis or the end of the text. The
alternatives read before the last bar are `done`, last first, and so are the
`items` behind it. -/
def readAlternatives : Nat → PatternCursor → List Written → List Written →
    Option (Written × PatternCursor)
  | 0, _, _, _ => none
  | steps + 1, cur, done, items =>
    let cur := cur.skip
    let finish := match done with
      | [] => Written.ofItems items.reverse
      | _ => .alternatives (Written.ofItems items.reverse :: done).reverse
    let copies (least : Nat) (most : Option Nat) (rest : List Char) := do
      let (w, before) ← repeatable items
      readAlternatives steps { cur with rest := dropLazy rest } done
        (.times w least most :: before)
    match cur.rest with
    | [] => some (finish, cur)
    | ')' :: _ => some (finish, cur)
    | '|' :: rest =>
      readAlternatives steps { cur with rest := rest } (Written.ofItems items.reverse :: done) []
    | '(' :: rest => do
      let (opening, next) ← readOpening { cur with rest := rest }
      match opening with
      | .flags changes =>
        readAlternatives steps { next with skips := skipsAfter next.skips changes } done
          (.flags changes :: items)
      | .group changes =>
        let inner := { next with skips := skipsAfter next.skips changes }
        let (body, next) ← readAlternatives steps inner [] []
        match next.rest with
        | ')' :: rest =>
          readAlternatives steps { next with rest := rest, skips := cur.skips } done
            (.group changes body :: items)
        | _ => none
    | '[' :: rest => do
      let (c, next) ← readClass { cur with rest := rest }
      readAlternatives steps next done (c :: items)
    | '?' :: rest => copies 0 (some 1) rest
    | '*' :: rest => copies 0 none rest
    | '+' :: rest => copies 1 none rest
    | '\x7b' :: rest => do
      let (w, before) ← repeatable items
      let (least, most, next) ← readBounds { cur with rest := rest }
      readAlternatives steps next done (.times w least most :: before)
    | '\\' :: rest => do
      let (e, next) ← readEscape { cur with rest := rest }
      readAlternatives steps next done (e.toWritten :: items)
    | '.' :: rest => readAlternatives steps { cur with rest := rest } done (.dot :: items)
    | '^' :: rest => readAlternatives steps { cur with rest := rest } done (.anchor .caret :: items)
    | '$' :: rest =>
      readAlternatives steps { cur with rest := rest } done (.anchor .dollar :: items)
    | c :: rest =>
      readAlternatives steps { cur with rest := rest } done (.literal ⟨c, false⟩ :: items)

end PatternCursor

/-- The expression that a text is the pattern of. -/
def Written.read? (pattern : String) : Option Written := do
  let text := pattern.toList
  let (w, cur) ← PatternCursor.readAlternatives (text.length + 1) ⟨text, false, []⟩ [] []
  if cur.rest.isEmpty && w.depth ≤ nestLimit then some w else none

end KeyedSeries

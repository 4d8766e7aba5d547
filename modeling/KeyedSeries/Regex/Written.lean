/-!
# Regular expressions as written

What a pattern says before its flags are taken into account: groups, flag
changes, repetitions, classes with their set operations. How much a pattern
nests is bounded (`KeyedSeries.Written.nestLimit`); one that nests deeper is
refused.
-/

namespace KeyedSeries

/-- A switch that a pattern can turn on and off. -/
inductive PatternFlag where
  /-- Case is disregarded. -/
  | ignoreCase
  /-- `^` and `$` also match at the ends of lines. -/
  | multiLine
  /-- `.` also matches the end of a line. -/
  | dotAll
  /-- Repetitions prefer few copies; this does not change what a pattern matches. -/
  | swapGreed
  /-- Classes and characters go by Unicode, and not by ASCII alone. -/
  | unicode
  /-- A carriage return ends lines too. -/
  | carriageReturn
  /-- Blanks and comments in the pattern are skipped. -/
  | ignoreSpace
  deriving DecidableEq, Repr

/-- The classes that have a letter. -/
inductive LetterClass where
  /-- Digits. -/
  | digit
  /-- Blanks. -/
  | space
  /-- Characters of words. -/
  | word
  deriving DecidableEq, Repr

/-- The classes of ASCII that have a name in brackets. -/
inductive NamedClass where
  /-- Letters and digits. -/
  | alnum
  /-- Letters. -/
  | alpha
  /-- All of ASCII. -/
  | ascii
  /-- The space and the tabulator. -/
  | blank
  /-- Control characters. -/
  | cntrl
  /-- Digits. -/
  | digit
  /-- Characters that leave a mark. -/
  | graph
  /-- Small letters. -/
  | lower
  /-- Characters that leave a mark, and the space. -/
  | print
  /-- Punctuation and symbols. -/
  | punct
  /-- Blanks and ends of lines. -/
  | space
  /-- Capital letters. -/
  | upper
  /-- Letters, digits and the underscore. -/
  | word
  /-- Hexadecimal digits. -/
  | xdigit
  deriving DecidableEq, Repr

namespace NamedClass

/-- The classes by name. -/
def names : List (String × NamedClass) :=
  [("alnum", alnum), ("alpha", alpha), ("ascii", ascii), ("blank", blank), ("cntrl", cntrl),
    ("digit", digit), ("graph", graph), ("lower", lower), ("print", print), ("punct", punct),
    ("space", space), ("upper", upper), ("word", word), ("xdigit", xdigit)]

/-- The class of a name, if it is one. -/
def ofName? (name : String) : Option NamedClass := (names.find? (·.1 == name)).map (·.2)

end NamedClass

/-- A property of characters, as a pattern asks for it. -/
inductive PropertyQuery where
  /-- By its name alone. -/
  | name (n : String)
  /-- By the kind of property and its value. -/
  | value (kind : String) (v : String)
  deriving DecidableEq, Repr

/-- A condition on a place, as written. -/
inductive Anchor where
  /-- The sign `^`. -/
  | caret
  /-- The sign `$`. -/
  | dollar
  /-- The start of the text. -/
  | textStart
  /-- The end of the text. -/
  | textEnd
  /-- The boundary of a word. -/
  | boundary
  /-- No boundary of a word. -/
  | noBoundary
  /-- The start of a word. -/
  | wordStart
  /-- The end of a word. -/
  | wordEnd
  /-- No word before the place. -/
  | noWordBefore
  /-- No word behind the place. -/
  | noWordBehind
  deriving DecidableEq, Repr

/-- A character of a pattern; one that was given as two hexadecimal digits
stands for a byte where the pattern does not go by Unicode. -/
structure WrittenChar where
  /-- The character. -/
  char : Char
  /-- Whether it was given as two hexadecimal digits. -/
  asByte : Bool
  deriving DecidableEq, Repr

/-- The set operations of classes. -/
inductive ClassOp where
  /-- Characters of both. -/
  | inter
  /-- Characters of the first only. -/
  | diff
  /-- Characters of exactly one. -/
  | symmDiff
  deriving DecidableEq, Repr

/-- A class in brackets, as written. -/
inductive WrittenClass where
  /-- One character. -/
  | single (c : WrittenChar)
  /-- The characters from one to another. -/
  | range (a b : WrittenChar)
  /-- A class that has a letter. -/
  | letter (negated : Bool) (k : LetterClass)
  /-- A class of ASCII that has a name. -/
  | named (negated : Bool) (k : NamedClass)
  /-- The characters with a property. -/
  | property (negated : Bool) (q : PropertyQuery)
  /-- Several classes together. -/
  | union (items : List WrittenClass)
  /-- A class in brackets of its own. -/
  | bracket (negated : Bool) (body : WrittenClass)
  /-- A set operation on two classes. -/
  | op (k : ClassOp) (a b : WrittenClass)
  deriving Repr

/-- A regular expression, as written. -/
inductive Written where
  /-- Nothing. -/
  | empty
  /-- A change of flags for the rest of the group: flags with their new states. -/
  | flags (changes : List (PatternFlag × Bool))
  /-- A character. -/
  | literal (c : WrittenChar)
  /-- Any character. -/
  | dot
  /-- A condition on the place. -/
  | anchor (a : Anchor)
  /-- A class that has a letter. -/
  | letter (negated : Bool) (k : LetterClass)
  /-- The characters with a property. -/
  | property (negated : Bool) (q : PropertyQuery)
  /-- A class in brackets. -/
  | bracket (negated : Bool) (body : WrittenClass)
  /-- Copies of an expression, `most` of them at most if there is a bound. -/
  | times (body : Written) (least : Nat) (most : Option Nat)
  /-- A group, with the flags it changes within. -/
  | group (changes : List (PatternFlag × Bool)) (body : Written)
  /-- Several expressions in turn. -/
  | concat (items : List Written)
  /-- One of several expressions. -/
  | alternatives (items : List Written)
  deriving Repr

/-! ### Nesting -/

/-- How deep a class nests. Single items do not count. -/
def WrittenClass.depth : WrittenClass → Nat
  | single _ | range _ _ | letter _ _ | named _ _ | property _ _ => 0
  | union items => 1 + depths items
  | bracket _ body => 1 + body.depth
  | op _ a b => 1 + max a.depth b.depth
where
  /-- The depth of the deepest class of a list. -/
  depths : List WrittenClass → Nat
    | [] => 0
    | c :: rest => max c.depth (depths rest)

namespace Written

/-- How deep an expression nests. Single characters, conditions and classes that
have a letter do not count. -/
def depth : Written → Nat
  | empty | flags _ | literal _ | dot | anchor _ | letter _ _ | property _ _ => 0
  | bracket _ body => 1 + body.depth
  | times body _ _ => 1 + body.depth
  | group _ body => 1 + body.depth
  | concat items => 1 + depths items
  | alternatives items => 1 + depths items
where
  /-- The depth of the deepest expression of a list. -/
  depths : List Written → Nat
    | [] => 0
    | w :: rest => max w.depth (depths rest)

/-- The deepest nesting that is accepted. -/
def nestLimit : Nat := 250

/-- Several expressions in turn; one alone stands for itself. -/
def ofItems : List Written → Written
  | [] => empty
  | [w] => w
  | items => concat items

end Written

end KeyedSeries

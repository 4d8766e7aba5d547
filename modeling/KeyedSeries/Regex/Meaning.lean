import KeyedSeries.Regex.Reader
import KeyedSeries.Regex.Search
import KeyedSeries.Unicode.CaseGroup
import KeyedSeries.Unicode.Script

/-!
# What a written expression matches

The flags of a written expression are carried along while it is read from left
to right, and turned into the sets and conditions of a
`KeyedSeries.Regex`. Without the flag for Unicode an expression goes by
bytes; what could then match a part of a character is refused.

What a library of patterns brings along beside their syntax is a parameter
(`KeyedSeries.PatternLibrary`): its tables of properties, and how large a pattern may
become when it is compiled. The library that is built in here
(`KeyedSeries.PatternLibrary.builtIn`) has the general categories, the scripts and the
properties of `KeyedSeries.Unicode.properties`, and takes patterns of any size. It knows
no other properties: neither Age, Grapheme_Cluster_Break, Word_Break, Sentence_Break
and Script_Extensions, which have values, nor the rest of those that a character has or
has not, such as XID_Start.
-/

namespace KeyedSeries

/-- The states of the flags that change what is matched. -/
structure FlagState where
  /-- Case is disregarded. -/
  ignoreCase : Bool
  /-- `^` and `$` also match at the ends of lines. -/
  multiLine : Bool
  /-- `.` also matches the end of a line. -/
  dotAll : Bool
  /-- Classes and characters go by Unicode. -/
  unicode : Bool
  /-- A carriage return ends lines too. -/
  carriageReturn : Bool
  deriving DecidableEq, Repr

namespace FlagState

/-- The flags a pattern starts with. -/
def start : FlagState := ⟨false, false, false, true, false⟩

/-- Changes one flag. -/
def change (s : FlagState) : PatternFlag × Bool → FlagState
  | (.ignoreCase, b) => { s with ignoreCase := b }
  | (.multiLine, b) => { s with multiLine := b }
  | (.dotAll, b) => { s with dotAll := b }
  | (.unicode, b) => { s with unicode := b }
  | (.carriageReturn, b) => { s with carriageReturn := b }
  | (.swapGreed, _) | (.ignoreSpace, _) => s

/-- Changes several flags. -/
def changeAll (s : FlagState) (changes : List (PatternFlag × Bool)) : FlagState :=
  changes.foldl change s

end FlagState

/-! ### Properties by name -/

namespace PropertyQuery

/-- A name as it is looked up: in lower case, without blanks, dashes and
underscores, and without a leading `is`. The name `isc` stands for itself. -/
def fold (name : String) : String :=
  let cs := name.toList
  let startsWithIs := (cs.take 2).map Char.toLower == ['i', 's']
  let body := if startsWithIs then cs.drop 2 else cs
  let kept := body.filter fun c => c != ' ' && c != '_' && c != '-' && c.toNat < 128
  let folded := kept.map Char.toLower
  String.ofList (if startsWithIs && folded == ['c'] then ['i', 's', 'c'] else folded)

open Unicode in
/-- The general categories and their groups by their folded names. -/
def categoryNames : List (List String × CharSet) :=
  [(["any"], CharSet.all), (["assigned"], assigned), (["ascii"], .ofTable ["0000-007F"]),
    (["l", "letter"], letter), (["lu", "uppercaseletter"], uppercaseLetter),
    (["ll", "lowercaseletter"], lowercaseLetter), (["lt", "titlecaseletter"], titlecaseLetter),
    (["lc", "casedletter"], casedLetter), (["lm", "modifierletter"], modifierLetter),
    (["lo", "otherletter"], otherLetter), (["m", "mark", "combiningmark"], mark),
    (["mn", "nonspacingmark"], nonspacingMark), (["mc", "spacingmark"], spacingMark),
    (["me", "enclosingmark"], enclosingMark), (["n", "number"], number),
    (["nd", "decimalnumber", "digit"], decimalNumber), (["nl", "letternumber"], letterNumber),
    (["no", "othernumber"], otherNumber), (["p", "punctuation", "punct"], punctuation),
    (["pc", "connectorpunctuation"], connectorPunctuation),
    (["pd", "dashpunctuation"], dashPunctuation), (["ps", "openpunctuation"], openPunctuation),
    (["pe", "closepunctuation"], closePunctuation),
    (["pi", "initialpunctuation"], initialPunctuation),
    (["pf", "finalpunctuation"], finalPunctuation), (["po", "otherpunctuation"], otherPunctuation),
    (["s", "symbol"], symbol), (["sm", "mathsymbol"], mathSymbol),
    (["sc", "currencysymbol"], currencySymbol), (["sk", "modifiersymbol"], modifierSymbol),
    (["so", "othersymbol"], otherSymbol), (["z", "separator"], separator),
    (["zs", "spaceseparator"], spaceSeparator), (["zl", "lineseparator"], lineSeparator),
    (["zp", "paragraphseparator"], paragraphSeparator), (["c", "other"], other),
    (["cc", "control", "cntrl"], control), (["cf", "format"], format),
    (["cs", "surrogate"], surrogate), (["co", "privateuse"], privateUse),
    (["cn", "unassigned"], unassigned)]

/-- Looks a folded name up in a table of names. -/
def inTable? (table : List (List String × CharSet)) (name : String) : Option CharSet :=
  (table.find? (·.1.contains name)).map (·.2)

/-- The characters that a query asks for, if its names are known. A name alone is
that of a property, a category or a script. -/
def set? : PropertyQuery → Option CharSet
  | name n =>
    let folded := fold n
    (inTable? Unicode.properties folded).orElse fun _ =>
      (inTable? categoryNames folded).orElse fun _ => Unicode.script? folded
  | value kind v =>
    match fold kind with
    | "generalcategory" | "gc" => inTable? categoryNames (fold v)
    | "script" | "sc" => Unicode.script? (fold v)
    | _ => none

end PropertyQuery

/-! ### Libraries -/

/-- What a library of patterns brings along beside their syntax. -/
class PatternLibrary where
  /-- The characters that a query asks for, if its names are known. -/
  property? : PropertyQuery → Option CharSet
  /-- Whether what a pattern is compiled to keeps within the limit on its size. -/
  isSmall : String → Bool

/-- The library with the tables that stand here, and without a limit. -/
instance PatternLibrary.builtIn : PatternLibrary := ⟨PropertyQuery.set?, fun _ => true⟩

/-! ### Classes -/

/-- The characters of a named class. -/
def NamedClass.set : NamedClass → CharSet
  | alnum => .ofTable ["0030-0039 0041-005A 0061-007A"]
  | alpha => .ofTable ["0041-005A 0061-007A"]
  | ascii => .ofTable ["0000-007F"]
  | blank => .ofTable ["0009 0020"]
  | cntrl => .ofTable ["0000-001F 007F"]
  | digit => .ofTable ["0030-0039"]
  | graph => .ofTable ["0021-007E"]
  | lower => .ofTable ["0061-007A"]
  | print => .ofTable ["0020-007E"]
  | punct => .ofTable ["0021-002F 003A-0040 005B-0060 007B-007E"]
  | space => .ofTable ["0009-000D 0020"]
  | upper => .ofTable ["0041-005A"]
  | word => .ofTable ["0030-0039 0041-005A 005F 0061-007A"]
  | xdigit => .ofTable ["0030-0039 0041-0046 0061-0066"]

namespace FlagState

/-- The characters of words. -/
def words (s : FlagState) : CharSet := if s.unicode then Unicode.word else NamedClass.word.set

/-- The characters of a class that has a letter. -/
def letterSet (s : FlagState) : LetterClass → CharSet
  | .digit => if s.unicode then Unicode.decimalNumber else NamedClass.digit.set
  | .space => if s.unicode then Unicode.whiteSpace else NamedClass.space.set
  | .word => s.words

/-- A set with the other case of its letters, where case is disregarded. -/
def foldSet (s : FlagState) (set : CharSet) : CharSet :=
  if s.ignoreCase then
    if s.unicode then Unicode.foldCase set else Unicode.foldAsciiCase set
  else set

/-- The set or its complement. A complement by bytes has bytes that are no
characters, and is refused. -/
def negate? (s : FlagState) (negated : Bool) (set : CharSet) : Option CharSet :=
  if negated then (if s.unicode then some set.complement else none) else some set

/-- The character of a class. By bytes only ASCII can stand in a class. -/
def classChar? (s : FlagState) (c : WrittenChar) : Option Char :=
  if s.unicode || c.char.toNat < 128 then some c.char else none

/-- The characters with a property, which is asked of characters only. -/
def propertySet? [PatternLibrary] (s : FlagState) (negated : Bool) (q : PropertyQuery) :
    Option CharSet :=
  if s.unicode then do s.negate? negated (s.foldSet (← PatternLibrary.property? q)) else none

mutual

/-- The characters of a class. -/
def classSet? [PatternLibrary] (s : FlagState) : WrittenClass → Option CharSet
  | .single c => (s.classChar? c).map CharSet.singleton
  | .range a b => do some (CharSet.range (← s.classChar? a) (← s.classChar? b))
  | .letter negated k => s.negate? negated (s.letterSet k)
  | .named negated k => s.negate? negated (s.foldSet k.set)
  | .property negated q => s.propertySet? negated q
  | .union items => s.unionSet? items
  | .bracket negated body => do s.negate? negated (s.foldSet (← s.classSet? body))
  | .op k a b => do
    let x := s.foldSet (← s.classSet? a)
    let y := s.foldSet (← s.classSet? b)
    some (match k with
      | .inter => x.inter y
      | .diff => x.diff y
      | .symmDiff => x.symmDiff y)

/-- The characters of all classes of a list. -/
def unionSet? [PatternLibrary] (s : FlagState) : List WrittenClass → Option CharSet
  | [] => some .empty
  | c :: rest => do some ((← s.classSet? c).union (← s.unionSet? rest))

end

/-! ### Expressions -/

/-- What a character matches. A byte beyond ASCII is no character. -/
def literal? (s : FlagState) (c : WrittenChar) : Option Regex :=
  if !s.unicode && c.asByte && 128 ≤ c.char.toNat then none
  else some (.chars (s.foldSet (.singleton c.char)))

/-- What the dot matches; by bytes it could match a part of a character. -/
def dot? (s : FlagState) : Option Regex :=
  if !s.unicode then none
  else if s.dotAll then some (.chars .all)
  else if s.carriageReturn then some (.chars (CharSet.ofList ['\n', '\r']).complement)
  else some (.chars (CharSet.singleton '\n').complement)

/-- The condition that a written one stands for. -/
def look (s : FlagState) : Anchor → Look
  | .caret =>
    if s.multiLine then (if s.carriageReturn then .returnStart else .lineStart) else .textStart
  | .dollar =>
    if s.multiLine then (if s.carriageReturn then .returnEnd else .lineEnd) else .textEnd
  | .textStart => .textStart
  | .textEnd => .textEnd
  | .boundary => .boundary s.words
  | .noBoundary => .noBoundary s.words
  | .wordStart => .wordStart s.words
  | .wordEnd => .wordEnd s.words
  | .noWordBefore => .noWordBefore s.words
  | .noWordBehind => .noWordBehind s.words

end FlagState

/-- The regular expression that matches nowhere. -/
def Regex.never : Regex := .chars .empty

namespace Written

mutual

/-- The regular expression of a written one, and the flags behind it. A group
keeps its changes of flags to itself. -/
def meaning? [PatternLibrary] (s : FlagState) : Written → Option (Regex × FlagState)
  | .empty => some (.empty, s)
  | .flags changes => some (.empty, s.changeAll changes)
  | .literal c => (s.literal? c).map fun r => (r, s)
  | .dot => s.dot?.map fun r => (r, s)
  | .anchor a => some (.look (s.look a), s)
  | .letter negated k => (s.negate? negated (s.letterSet k)).map fun set => (.chars set, s)
  | .property negated q => (s.propertySet? negated q).map fun set => (.chars set, s)
  | .bracket negated body => do
    let set ← s.negate? negated (s.foldSet (← s.classSet? body))
    some (.chars set, s)
  | .times body least most => do
    let (r, s) ← body.meaning? s
    some (.times r least most, s)
  | .group changes body => do
    let (r, _) ← body.meaning? (s.changeAll changes)
    some (r, s)
  | .concat items => inTurn? s items
  | .alternatives items => oneOf? s items

/-- The meanings of several expressions in turn. -/
def inTurn? [PatternLibrary] (s : FlagState) : List Written → Option (Regex × FlagState)
  | [] => some (.empty, s)
  | w :: rest => do
    let (r, s) ← w.meaning? s
    let (r', s) ← inTurn? s rest
    some (.seq r r', s)

/-- The meanings of alternatives; a change of flags in one also counts in those
behind it. -/
def oneOf? [PatternLibrary] (s : FlagState) : List Written → Option (Regex × FlagState)
  | [] => some (.never, s)
  | w :: rest => do
    let (r, s) ← w.meaning? s
    let (r', s) ← oneOf? s rest
    some (.alt r r', s)

end

end Written

namespace Regex

/-- The regular expression that a pattern is by its syntax. -/
def ofSyntax? [PatternLibrary] (pattern : String) : Option Regex := do
  let w ← Written.read? pattern
  let (r, _) ← w.meaning? .start
  some r

/-- The regular expression that a pattern stands for, if it is one and is not too large. -/
def ofPattern? [PatternLibrary] (pattern : String) : Option Regex :=
  if PatternLibrary.isSmall pattern then ofSyntax? pattern else none

end Regex

end KeyedSeries

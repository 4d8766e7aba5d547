import KeyedSeries.Unicode.CharSet

/-!
# Regular expressions and where they match

A regular expression is built from sets of characters and from conditions on
the place between two characters. What it matches is a relation between places
of a text (`KeyedSeries.Regex.Matches`): from a start to an end.

The search computes that relation forwards. `KeyedSeries.Regex.ends` takes a
list of places and returns the places that some match leads to from one of
them; a repetition is followed until no new place turns up, which is at the
latest when all places of the text have. **A text matches when some place
leads to some place** (`KeyedSeries.Regex.isMatch`).
-/

namespace KeyedSeries

/-- A condition on a place between two characters. -/
inductive Look where
  /-- The place before the first character. -/
  | textStart
  /-- The place behind the last character. -/
  | textEnd
  /-- The start of a line. -/
  | lineStart
  /-- The end of a line. -/
  | lineEnd
  /-- The start of a line, where a carriage return with or without a line feed ends
  lines too. -/
  | returnStart
  /-- The end of a line of that kind. -/
  | returnEnd
  /-- Between a character of words and one that is none. -/
  | boundary (words : CharSet)
  /-- Anywhere else. -/
  | noBoundary (words : CharSet)
  /-- Where a word starts. -/
  | wordStart (words : CharSet)
  /-- Where a word ends. -/
  | wordEnd (words : CharSet)
  /-- With no character of words before it. -/
  | noWordBefore (words : CharSet)
  /-- With no character of words behind it. -/
  | noWordBehind (words : CharSet)
  deriving DecidableEq, Repr

namespace Look

/-- Whether there is a character and the set has it. -/
def among (words : CharSet) : Option Char → Bool
  | some c => words.contains c
  | none => false

/-- Whether the condition holds between the characters before and behind a
place. -/
def holds (before behind : Option Char) : Look → Bool
  | textStart => before.isNone
  | textEnd => behind.isNone
  | lineStart => before.isNone || before == some '\n'
  | lineEnd => behind.isNone || behind == some '\n'
  | returnStart =>
    before.isNone || before == some '\n' || (before == some '\r' && behind != some '\n')
  | returnEnd =>
    behind.isNone || behind == some '\r' || (behind == some '\n' && before != some '\r')
  | boundary w => among w before != among w behind
  | noBoundary w => among w before == among w behind
  | wordStart w => !among w before && among w behind
  | wordEnd w => among w before && !among w behind
  | noWordBefore w => !among w before
  | noWordBehind w => !among w behind

end Look

/-- A regular expression. -/
inductive Regex where
  /-- Matches at every place, without moving. -/
  | empty
  /-- Matches one character of the set. -/
  | chars (s : CharSet)
  /-- Matches where the condition holds, without moving. -/
  | look (l : Look)
  /-- Matches what the first matches, followed by what the second matches. -/
  | seq (a b : Regex)
  /-- Matches what either matches. -/
  | alt (a b : Regex)
  /-- Matches a number of copies, from `least` on and up to `most` if there is a
  bound. -/
  | times (r : Regex) (least : Nat) (most : Option Nat)
  deriving DecidableEq, Repr

namespace Regex

/-! ### The relation -/

/-- The character before a place. -/
def charBefore (text : Array Char) (i : Nat) : Option Char := if i = 0 then none else text[i - 1]?

/-- `n` steps of a relation. -/
def Steps (R : Nat → Nat → Prop) : Nat → Nat → Nat → Prop
  | 0, i, j => i = j
  | n + 1, i, j => ∃ k, R i k ∧ Steps R n k j

/-- `r` matches the part of the text from the place `i` to the place `j`. -/
def Matches (text : Array Char) : Regex → Nat → Nat → Prop
  | empty, i, j => i = j
  | chars s, i, j => j = i + 1 ∧ ∃ c, text[i]? = some c ∧ s.contains c
  | look l, i, j => i = j ∧ l.holds (charBefore text i) text[i]?
  | seq a b, i, j => ∃ k, a.Matches text i k ∧ b.Matches text k j
  | alt a b, i, j => a.Matches text i j ∨ b.Matches text i j
  | times r least most, i, j =>
    ∃ n, least ≤ n ∧ (∀ m, most = some m → n ≤ m) ∧ Steps (r.Matches text) n i j

/-! ### The search -/

/-- Adds to the places reached those that another step reaches from the newest
ones, and goes on with the new ones among them, `steps` times at most. -/
def spread (f : List Nat → List Nat) : Nat → List Nat → List Nat → List Nat
  | 0, _, reached => reached
  | steps + 1, newest, reached =>
    match (f newest).filter fun j => !reached.contains j with
    | [] => reached
    | new => spread f steps new (reached ++ new)

/-- Applies a step `n` times. -/
def iterate (f : List Nat → List Nat) : Nat → List Nat → List Nat
  | 0, places => places
  | n + 1, places => iterate f n (f places)

/-- The places that matches of a regular expression lead to from the given ones,
each listed once. -/
def ends (text : Array Char) : Regex → List Nat → List Nat
  | empty, places => places
  | chars s, places =>
    places.filterMap fun i => match text[i]? with
      | some c => if s.contains c then some (i + 1) else none
      | none => none
  | look l, places => places.filter fun i => l.holds (charBefore text i) text[i]?
  | seq a b, places => b.ends text (a.ends text places)
  | alt a b, places =>
    let left := a.ends text places
    left ++ (b.ends text places).filter fun j => !left.contains j
  | times r least most, places =>
    let start := iterate (r.ends text) least places
    let steps := match most with
      | none => text.size + 1
      | some m => m - least
    spread (r.ends text) steps start start

/-- Whether the regular expression matches some part of the text. -/
def isMatch (r : Regex) (text : String) : Bool :=
  let chars := text.toList.toArray
  !(r.ends chars (List.range (chars.size + 1))).isEmpty

end Regex

end KeyedSeries

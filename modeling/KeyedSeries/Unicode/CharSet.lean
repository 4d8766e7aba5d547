/-!
# Sets of characters

A set of characters is a list of intervals of code points, in ascending order
and apart from each other. Sets are written as tables of hexadecimal intervals,
such as `0041-005A 0061-007A 00B5`, in the layout the Unicode data files use.
-/

namespace KeyedSeries

/-- The code points from `low` to `high`, both included. -/
structure CodeSpan where
  /-- The first code point. -/
  low : Nat
  /-- The last code point. -/
  high : Nat
  deriving DecidableEq, Repr

/-- A set of characters, as intervals of code points. -/
structure CharSet where
  /-- The intervals. -/
  spans : List CodeSpan
  deriving DecidableEq, Repr

namespace CharSet

/-- The largest code point. -/
def lastCode : Nat := 0x10FFFF

/-- Whether the code point lies in an interval of the set. -/
def hasCode (s : CharSet) (n : Nat) : Bool := s.spans.any fun p => p.low ≤ n && n ≤ p.high

/-- Whether the set has the character. -/
def contains (s : CharSet) (c : Char) : Bool := s.hasCode c.toNat

/-- Puts an interval before the first one that does not start earlier. -/
def place (p : CodeSpan) : List CodeSpan → List CodeSpan
  | [] => [p]
  | q :: rest => if p.low ≤ q.low then p :: q :: rest else q :: place p rest

/-- Extends an interval over those that meet it or follow without a gap. -/
def absorb (current : CodeSpan) : List CodeSpan → List CodeSpan
  | [] => [current]
  | q :: rest =>
    if q.low ≤ current.high + 1 then absorb ⟨current.low, max current.high q.high⟩ rest
    else current :: absorb q rest

/-- Merges two lists of intervals by where they start; `steps` bounds the work. -/
def mergeSpans : Nat → List CodeSpan → List CodeSpan → List CodeSpan
  | 0, ps, qs => ps ++ qs
  | _ + 1, [], qs => qs
  | _ + 1, ps, [] => ps
  | steps + 1, p :: ps, q :: qs =>
    if p.low ≤ q.low then p :: mergeSpans steps ps (q :: qs)
    else q :: mergeSpans steps (p :: ps) qs

/-- Joins intervals that are listed in order. -/
def join : List CodeSpan → CharSet
  | [] => ⟨[]⟩
  | p :: rest => ⟨absorb p rest⟩

/-- The set without characters. -/
def empty : CharSet := ⟨[]⟩

/-- All characters. -/
def all : CharSet := ⟨[⟨0, lastCode⟩]⟩

/-- One character. -/
def singleton (c : Char) : CharSet := ⟨[⟨c.toNat, c.toNat⟩]⟩

/-- The characters from one to another. -/
def range (a b : Char) : CharSet := if a ≤ b then ⟨[⟨a.toNat, b.toNat⟩]⟩ else empty

/-- The characters of either set. -/
def union (a b : CharSet) : CharSet :=
  join (mergeSpans (a.spans.length + b.spans.length) a.spans b.spans)

/-- The gaps between intervals that are listed in order, from `start` on. -/
def gaps (start : Nat) : List CodeSpan → List CodeSpan
  | [] => if start ≤ lastCode then [⟨start, lastCode⟩] else []
  | p :: rest =>
    if start < p.low then ⟨start, p.low - 1⟩ :: gaps (p.high + 1) rest
    else gaps (p.high + 1) rest

/-- The characters that the set does not have. -/
def complement (s : CharSet) : CharSet := ⟨gaps 0 s.spans⟩

/-- The characters of both sets. -/
def inter (a b : CharSet) : CharSet := (a.complement.union b.complement).complement

/-- The characters of the first set that the second one does not have. -/
def diff (a b : CharSet) : CharSet := a.inter b.complement

/-- The characters of exactly one of the sets. -/
def symmDiff (a b : CharSet) : CharSet := (a.diff b).union (b.diff a)

/-- The characters of any set of a list. -/
def unions (sets : List CharSet) : CharSet := sets.foldl union empty

/-- The set of a list of characters. -/
def ofList (cs : List Char) : CharSet :=
  join (cs.foldr (fun c => place ⟨c.toNat, c.toNat⟩) [])

/-! ### Tables -/

/-- The value of a hexadecimal digit. -/
def hexValue? (c : Char) : Option Nat :=
  if '0' ≤ c ∧ c ≤ '9' then some (c.toNat - '0'.toNat)
  else if 'a' ≤ c ∧ c ≤ 'f' then some (c.toNat - 'a'.toNat + 10)
  else if 'A' ≤ c ∧ c ≤ 'F' then some (c.toNat - 'A'.toNat + 10)
  else none

/-- The number that a list of hexadecimal digits stands for; other characters
count as zeros. -/
def hexNumber (cs : List Char) : Nat := cs.foldl (fun n c => 16 * n + (hexValue? c).getD 0) 0

/-- Cuts a list at every occurrence of a separator. -/
def cut (sep : Char) : List Char → List (List Char)
  | [] => [[]]
  | c :: rest =>
    if c == sep then [] :: cut sep rest
    else match cut sep rest with
      | [] => [[c]]
      | piece :: pieces => (c :: piece) :: pieces

/-- The entries of a table of hexadecimal numbers: blanks and ends of lines stand
between entries, dashes between the numbers of an entry. -/
def tableEntries (table : List String) : List (List Nat) :=
  table.flatMap fun line => (cut ' ' line.toList).map fun entry => (cut '-' entry).map hexNumber

/-- The set written as a table of intervals in ascending order. -/
def ofTable (table : List String) : CharSet :=
  ⟨(tableEntries table).filterMap fun
    | [n] => some ⟨n, n⟩
    | [low, high] => some ⟨low, high⟩
    | _ => none⟩

end CharSet

end KeyedSeries

import KeyedSeries.Text.Utf8

/-!
# A digest of bytes

The 64-bit xxHash of a sequence of bytes, with seed zero. Bytes are taken 32 at
a time into four lanes; what is left over is taken by eights, by a four, and
singly; and a last step spreads every bit over the whole word.
-/

namespace KeyedSeries.XxHash

/-- The multipliers of the digest. -/
def prime1 : UInt64 := 11400714785074694791

@[inherit_doc prime1] def prime2 : UInt64 := 14029467366897019727

@[inherit_doc prime1] def prime3 : UInt64 := 1609587929392839161

@[inherit_doc prime1] def prime4 : UInt64 := 9650029242287828579

@[inherit_doc prime1] def prime5 : UInt64 := 2870177450012600261

/-- Turns a word to the left; `0 < n < 64`. -/
def rotate (x : UInt64) (n : UInt64) : UInt64 := (x <<< n) ||| (x >>> (64 - n))

/-- The word whose bytes are given, the lowest first. -/
def word (bytes : Bytes) : UInt64 := bytes.foldr (fun b w => (w <<< 8) ||| b.toUInt64) 0

/-- The eight bytes of a word, the lowest first. -/
def bytesOf (x : UInt64) : Bytes := (List.range 8).map fun i => (x >>> (8 * i.toUInt64)).toUInt8

/-- Takes a word into a lane. -/
def round (lane x : UInt64) : UInt64 := rotate (lane + x * prime2) 31 * prime1

/-- The four lanes. -/
structure Lanes where
  /-- The lane of the first eight bytes of every 32. -/
  a : UInt64
  /-- The lane of the second eight bytes. -/
  b : UInt64
  /-- The lane of the third eight bytes. -/
  c : UInt64
  /-- The lane of the last eight bytes. -/
  d : UInt64

/-- Takes 32 bytes into the lanes, `n` times, and gives back what is left. -/
def stripes : Nat → Lanes → Bytes → Lanes × Bytes
  | 0, lanes, bytes => (lanes, bytes)
  | n + 1, l, bytes =>
    stripes n
      ⟨round l.a (word (bytes.take 8)), round l.b (word ((bytes.drop 8).take 8)),
        round l.c (word ((bytes.drop 16).take 8)), round l.d (word ((bytes.drop 24).take 8))⟩
      (bytes.drop 32)

/-- Takes a lane into the digest. -/
def mergeLane (h lane : UInt64) : UInt64 := (h ^^^ round 0 lane) * prime1 + prime4

/-- Takes eight bytes into the digest, `n` times, and gives back what is left. -/
def eights : Nat → UInt64 → Bytes → UInt64 × Bytes
  | 0, h, bytes => (h, bytes)
  | n + 1, h, bytes =>
    eights n (rotate (h ^^^ round 0 (word (bytes.take 8))) 27 * prime1 + prime4) (bytes.drop 8)

/-- Takes four bytes into the digest, if there are as many. -/
def four (h : UInt64) (bytes : Bytes) : UInt64 × Bytes :=
  if 4 ≤ bytes.length then
    (rotate (h ^^^ (word (bytes.take 4) * prime1)) 23 * prime2 + prime3, bytes.drop 4)
  else (h, bytes)

/-- Takes a byte into the digest. -/
def single (h : UInt64) (b : UInt8) : UInt64 := rotate (h ^^^ (b.toUInt64 * prime5)) 11 * prime1

/-- Spreads every bit over the word. -/
def spread (h : UInt64) : UInt64 :=
  let h := (h ^^^ (h >>> 33)) * prime2
  let h := (h ^^^ (h >>> 29)) * prime3
  h ^^^ (h >>> 32)

/-- The digest of a sequence of bytes. -/
def digest (bytes : Bytes) : UInt64 :=
  let (l, rest) := stripes (bytes.length / 32) ⟨prime1 + prime2, prime2, 0, 0 - prime1⟩ bytes
  let start :=
    if bytes.length < 32 then prime5
    else
      let h := rotate l.a 1 + rotate l.b 7 + rotate l.c 12 + rotate l.d 18
      mergeLane (mergeLane (mergeLane (mergeLane h l.a) l.b) l.c) l.d
  let (h, rest) := eights (rest.length / 8) (start + bytes.length.toUInt64) rest
  let (h, rest) := four h rest
  spread (rest.foldl single h)

end KeyedSeries.XxHash

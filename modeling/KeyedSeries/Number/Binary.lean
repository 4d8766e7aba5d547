/-!
# Binary floating-point numbers, exactly

A floating-point cell is kept as its bits (`KeyedSeries.BinaryFloat`), and all
that is ever asked of it – which of two is larger, which decimal it is written
as, which number a decimal is nearest to – is answered in exact arithmetic on
natural numbers. Two functions carry this:

* `KeyedSeries.BinaryFloat.datum` – what a bit pattern **means**: not a number,
  an infinity, or a signed integer times a power of two;
* `KeyedSeries.BinaryFormat.nearest` – the bit pattern that is **nearest** to a
  fraction, the even one of two that are equally near.
-/

namespace KeyedSeries

/-- A power of two. -/
def twoTo (n : Nat) : Nat := Nat.pow 2 n

/-- A power of ten. -/
def tenTo (n : Nat) : Nat := Nat.pow 10 n

/-- The widths of the two fields behind the sign bit. -/
structure BinaryFormat where
  /-- How many bits of the significand are stored. -/
  fractionBits : Nat
  /-- How many bits the exponent has. -/
  exponentBits : Nat
  deriving DecidableEq, Repr

namespace BinaryFormat

/-- Four bytes: 23 bits of fraction, 8 of exponent. -/
def single : BinaryFormat := ⟨23, 8⟩

/-- Eight bytes: 52 bits of fraction, 11 of exponent. -/
def double : BinaryFormat := ⟨52, 11⟩

/-- All bits of a number: sign, exponent, fraction. -/
def width (f : BinaryFormat) : Nat := 1 + f.exponentBits + f.fractionBits

/-- The power of two that the last bit of the smallest numbers counts. -/
def leastExponent (f : BinaryFormat) : Int := 2 - twoTo (f.exponentBits - 1) - f.fractionBits

/-- The exponent field of the values that are no finite numbers. -/
def reservedExponent (f : BinaryFormat) : Nat := twoTo f.exponentBits - 1

/-- The pattern of the positive infinity. -/
def infinityPattern (f : BinaryFormat) : Nat := f.reservedExponent * twoTo f.fractionBits

end BinaryFormat

/-- A number of a format, as its bits. -/
structure BinaryFloat (f : BinaryFormat) where
  /-- Sign, exponent and fraction, from the highest bit down. -/
  bits : BitVec f.width
  deriving DecidableEq, Repr

/-- What a bit pattern stands for. -/
inductive Datum where
  /-- No number at all. -/
  | nan
  /-- Beyond all finite numbers, on one side or the other. -/
  | infinity (negative : Bool)
  /-- A sign and `significand * 2 ^ exponent`; zero has a sign too. -/
  | finite (negative : Bool) (significand : Nat) (exponent : Int)
  deriving DecidableEq, Repr

namespace Datum

/-- The significand with its sign. -/
def signed (negative : Bool) (significand : Nat) : Int :=
  if negative then -(significand : Int) else significand

/-- Compares `a * 2 ^ p` with `b * 2 ^ q` over their common power of two. -/
def compareScaled (a : Int) (p : Int) (b : Int) (q : Int) : Ordering :=
  let r := min p q
  compare (a * twoTo (p - r).toNat) (b * twoTo (q - r).toNat)

/-- The order of the numbers that two data stand for: zeros are equal whatever
their sign, and what is not a number has no place in the order. -/
def compare? : Datum → Datum → Option Ordering
  | nan, _ => none
  | _, nan => none
  | infinity s, infinity t => some (compare t s)
  | infinity s, finite .. => some (if s then .lt else .gt)
  | finite .., infinity t => some (if t then .gt else .lt)
  | finite s a p, finite t b q => some (compareScaled (signed s a) p (signed t b) q)

end Datum

/-! ### Reading a bit pattern -/

namespace BinaryFloat

variable {f : BinaryFormat}

/-- The fraction field. -/
def fraction (x : BinaryFloat f) : Nat := x.bits.toNat % twoTo f.fractionBits

/-- The exponent field. -/
def exponentField (x : BinaryFloat f) : Nat :=
  x.bits.toNat / twoTo f.fractionBits % twoTo f.exponentBits

/-- Whether the sign bit is set. -/
def isNegative (x : BinaryFloat f) : Bool :=
  x.bits.toNat / twoTo (f.fractionBits + f.exponentBits) == 1

/-- What the pattern means. An exponent field of zero goes with a significand
that has no hidden bit, any other with one that has. -/
def datum (x : BinaryFloat f) : Datum :=
  if x.exponentField = f.reservedExponent then
    if x.fraction = 0 then .infinity x.isNegative else .nan
  else if x.exponentField = 0 then
    .finite x.isNegative x.fraction f.leastExponent
  else
    .finite x.isNegative (twoTo f.fractionBits + x.fraction)
      (f.leastExponent + (x.exponentField - 1 : Nat))

end BinaryFloat

/-! ### Rounding a fraction -/

/-- The integer nearest to `num / den`, the even one where two are. -/
def roundHalfEven (num den : Nat) : Nat :=
  let q := num / den
  let r := num % den
  if 2 * r < den then q else if den < 2 * r then q + 1 else q + q % 2

/-- The largest `e` with `2 ^ e ≤ num / den`, for a positive fraction. -/
def floorLog2 (num den : Nat) : Int :=
  let e : Int := num.log2 - den.log2
  if den * twoTo e.toNat ≤ num * twoTo (-e).toNat then e else e - 1

namespace BinaryFormat

/-- The pattern, without sign, of the number nearest to `num / den`. Patterns
without sign go up with the numbers they stand for, so a significand that is
rounded up to the next power of two carries into the exponent field by itself,
and one beyond the largest number becomes the infinity. -/
def nearest (f : BinaryFormat) (num den : Nat) : Nat :=
  if num = 0 then 0
  else
    let q := max (floorLog2 num den - f.fractionBits) f.leastExponent
    let m := roundHalfEven (num * twoTo (-q).toNat) (den * twoTo q.toNat)
    min ((q - f.leastExponent).toNat * twoTo f.fractionBits + m) f.infinityPattern

end BinaryFormat

namespace BinaryFloat

variable {f : BinaryFormat}

/-- Puts a sign before a pattern. -/
def ofPattern (negative : Bool) (pattern : Nat) : BinaryFloat f :=
  ⟨BitVec.ofNat _ (pattern + if negative then twoTo (f.fractionBits + f.exponentBits) else 0)⟩

/-- The number nearest to a signed fraction. -/
def ofFraction (negative : Bool) (num den : Nat) : BinaryFloat f :=
  ofPattern negative (f.nearest num den)

/-- The number nearest to an integer. -/
def ofInt (i : Int) : BinaryFloat f := ofFraction (i < 0) i.natAbs 1

/-- The number nearest to `digits * 10 ^ exponent`. A decimal whose leading
digit stands hundreds of places away from the point is beyond both formats, and
no power of ten is computed for it. -/
def ofDecimal (negative : Bool) (digits : Nat) (exponent : Int) : BinaryFloat f :=
  let places : Int := exponent + (Nat.toDigits 10 digits).length
  if digits = 0 ∨ places < -400 then ofPattern negative 0
  else if 400 < places then ofPattern negative f.infinityPattern
  else ofFraction negative (digits * tenTo exponent.toNat) (tenTo (-exponent).toNat)

/-- A pattern that is not a number. -/
def quietNaN : BinaryFloat f :=
  ofPattern false (f.infinityPattern + twoTo (f.fractionBits - 1))

/-- Whether the pattern stands for a finite number. -/
def isFinite (x : BinaryFloat f) : Bool := x.exponentField != f.reservedExponent

/-- Whether the pattern stands for no number. -/
def isNaN (x : BinaryFloat f) : Bool := x.datum == .nan

/-- Whether the number is zero, with or without sign. -/
def isZero (x : BinaryFloat f) : Bool := x.exponentField == 0 && x.fraction == 0

/-- The product of two finite numbers, rounded. -/
def product (x y : BinaryFloat f) : BinaryFloat f :=
  match x.datum, y.datum with
  | .finite s m e, .finite t m' e' =>
    ofFraction (s != t) (m * m' * twoTo (e + e').toNat) (twoTo (-(e + e')).toNat)
  | _, _ => quietNaN

/-- The quotient of two finite numbers, of which the second one is not zero,
rounded. -/
def quotient (x y : BinaryFloat f) : BinaryFloat f :=
  match x.datum, y.datum with
  | .finite s m e, .finite t m' e' =>
    ofFraction (s != t) (m * twoTo (e - e').toNat) (m' * twoTo (e' - e).toNat)
  | _, _ => quietNaN

/-- The same number in another format, or the nearest there is. -/
def convert {g : BinaryFormat} (x : BinaryFloat f) : BinaryFloat g :=
  match x.datum with
  | .nan => quietNaN
  | .infinity s => ofPattern s g.infinityPattern
  | .finite s m e => ofFraction s (m * twoTo e.toNat) (twoTo (-e).toNat)

end BinaryFloat

end KeyedSeries

import KeyedSeries.Number.Binary

/-!
# The shortest decimal that reads back

A floating-point number is written with as few digits as tell it from its
neighbours. The numbers that round to `m * 2 ^ e` fill an interval around it
(`KeyedSeries.Rounding`), and the decimals with a given number of digits are
the points of a grid; **the first grid with a point in the interval wins**, and
of its points the one nearest to the number.

If a point of a grid lies in the interval at all, then so does one of the two
points between which the number itself lies, so two candidates a grid are
enough. Where both lie in the interval and equally near, the writer of the
number decides (`KeyedSeries.Tie`).
-/

namespace KeyedSeries

/-- The number `digits * 10 ^ exponent`. -/
structure Decimal where
  /-- The digits, read as a whole number. -/
  digits : Nat
  /-- The place of the last digit. -/
  exponent : Int
  deriving DecidableEq, Repr

/-- Which of two equally near decimals is written. -/
inductive Tie where
  /-- The larger one. -/
  | up
  /-- The one whose last digit is even. -/
  | even
  deriving DecidableEq, Repr

/-- The interval of numbers that are read as one floating-point number, all over
one denominator. -/
structure Rounding where
  /-- Numerator of the lower end. -/
  low : Nat
  /-- Numerator of the number itself. -/
  value : Nat
  /-- Numerator of the upper end. -/
  high : Nat
  /-- The denominator. -/
  den : Nat
  /-- Whether the ends themselves are read as the number. -/
  closed : Bool
  deriving DecidableEq, Repr

namespace Rounding

/-- The interval of `m * 2 ^ e`. It reaches half a unit of the last place to
both sides, and only a quarter below a power of two, where the numbers lie
closer. A tie goes to the even significand. -/
def of (f : BinaryFormat) (m : Nat) (e : Int) : Rounding :=
  let unit := twoTo (e - 2).toNat
  let below := if m = twoTo f.fractionBits ∧ f.leastExponent < e then 1 else 2
  { low := (4 * m - below) * unit
    value := 4 * m * unit
    high := (4 * m + 2) * unit
    den := twoTo (2 - e).toNat
    closed := m % 2 == 0 }

/-- Whether `num / d` lies in the interval. -/
def contains (r : Rounding) (num d : Nat) : Bool :=
  if r.closed then r.low * d ≤ num * r.den && num * r.den ≤ r.high * d
  else r.low * d < num * r.den && num * r.den < r.high * d

/-- How many decimal digits a whole number has; zero has one. -/
def digitCount (n : Nat) : Nat := (Nat.toDigits 10 n).length

/-- The exponent of the leading decimal digit: the largest `e` with
`10 ^ e ≤ value`. Below one it is read off the smallest power of ten that is not
less than the inverse. -/
def leadingExponent (r : Rounding) : Int :=
  if r.den ≤ r.value then digitCount (r.value / r.den) - 1
  else -digitCount ((r.den + r.value - 1) / r.value - 1)

/-- The nearer of the candidates `k` and `k + 1` of the grid `u / v`; both lie
in the interval. -/
def nearer (tie : Tie) (r : Rounding) (k u v : Nat) : Nat :=
  -- twice the number against the sum of the candidates
  match compare (2 * r.value * v) ((2 * k + 1) * u * r.den) with
  | .lt => k
  | .gt => k + 1
  | .eq => match tie with
    | .up => k + 1
    | .even => k + k % 2

/-- The decimal of the grid `10 ^ t` to write, if the grid has one. -/
def onGrid? (tie : Tie) (r : Rounding) (t : Int) : Option Decimal :=
  let u := tenTo t.toNat
  let v := tenTo (-t).toNat
  let k := r.value * v / (r.den * u)
  let lower := r.contains (k * u) v
  let upper := r.contains ((k + 1) * u) v
  if lower && upper then some ⟨r.nearer tie k u v, t⟩
  else if lower then some ⟨k, t⟩
  else if upper then some ⟨k + 1, t⟩
  else none

/-- Tries grids of one digit more each, at most `more` further ones. -/
def search (tie : Tie) (r : Rounding) (t : Int) : Nat → Decimal
  | 0 => ⟨r.value * tenTo (-t).toNat / (r.den * tenTo t.toNat), t⟩
  | more + 1 =>
    match r.onGrid? tie t with
    | some d => d
    | none => search tie r (t - 1) more

/-- The shortest decimal in the interval. -/
def shortest (tie : Tie) (r : Rounding) : Decimal := r.search tie r.leadingExponent 17

end Rounding

end KeyedSeries

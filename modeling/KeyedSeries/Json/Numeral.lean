import KeyedSeries.Number.Style
import KeyedSeries.Text.Utf8

/-!
# Numerals in documents

A numeral has an optional minus sign, digits without a needless zero in front,
and then, if it likes, a fraction and an exponent
(`KeyedSeries.Numeral.ofBytes?`). Only a numeral that has neither of these is
an integer, and `-0` is none either: it stands for the floating-point zero with
a sign (`KeyedSeries.Numeral.int?`).

A numeral that is no integer is **not** read as the number nearest to it. Of its
digits only so many are taken as fit into 64 bits, and these are rounded before
they are scaled by a power of ten, which is a rounded number itself, and the
outcome is rounded once more (`KeyedSeries.Numeral.double?`).
-/

namespace KeyedSeries

/-- What a numeral says, part by part. -/
structure Numeral where
  /-- Whether a minus sign stands in front. -/
  negative : Bool
  /-- The digits before the point. -/
  whole : Bytes
  /-- The digits behind the point. -/
  fraction : Bytes
  /-- The number of the exponent part, if there is one. -/
  exponent : Option Int
  deriving DecidableEq, Repr

namespace Numeral

/-! ### Digits -/

/-- Whether a byte is a decimal digit. -/
def isDigit (b : UInt8) : Bool := 0x30 ≤ b && b ≤ 0x39

/-- The number that digits write. -/
def natOf (ds : Bytes) : Nat := ds.foldl (fun n b => 10 * n + (b.toNat - 0x30)) 0

/-- The digits at the start of the bytes, of which there has to be one, and what
comes behind them. -/
def someDigits? (b : Bytes) : Option (Bytes × Bytes) :=
  match b.takeWhile isDigit with
  | [] => none
  | ds => some (ds, b.dropWhile isDigit)

/-! ### Reading -/

/-- The sign at the start of the bytes, and what comes behind it. -/
def sign : Bytes → Bool × Bytes
  | 0x2d :: rest => (true, rest)
  | b => (false, b)

/-- The digits before the point, and what comes behind them. -/
def whole? (b : Bytes) : Option (Bytes × Bytes) :=
  match someDigits? b with
  | some (0x30 :: _ :: _, _) => none
  | r => r

/-- The digits behind a point, none where there is no point, and what comes
behind them. -/
def fraction? : Bytes → Option (Bytes × Bytes)
  | 0x2e :: rest => someDigits? rest
  | b => some ([], b)

/-- The exponent part, if there is one, and what comes behind it. -/
def exponent? : Bytes → Option (Option Int × Bytes)
  | [] => some (none, [])
  | c :: rest =>
    if c = 0x65 ∨ c = 0x45 then
      let (negative, rest) :=
        match rest with
        | 0x2b :: rest => (false, rest)
        | rest => sign rest
      (someDigits? rest).map fun (ds, rest) => (some (Datum.signed negative (natOf ds)), rest)
    else some (none, c :: rest)

/-- The numeral that the bytes are. -/
def ofBytes? (b : Bytes) : Option Numeral :=
  let (negative, rest) := sign b
  match whole? rest with
  | none => none
  | some (whole, rest) =>
    match fraction? rest with
    | none => none
    | some (fraction, rest) =>
      match exponent? rest with
      | some (exponent, []) =>
        some { negative, whole, fraction, exponent }
      | _ => none

/-! ### Integers -/

/-- Whether there is neither a fraction nor an exponent part. -/
def isWhole (n : Numeral) : Bool := n.fraction.isEmpty && n.exponent.isNone

/-- The integer, if the numeral is one. -/
def int? (n : Numeral) : Option Int :=
  if n.isWhole && !(n.negative && natOf n.whole == 0) then
    some (Datum.signed n.negative (natOf n.whole))
  else none

/-- Whether an integer is written in 64 bits, with or without sign. -/
def isWord (i : Int) : Bool := Int64.minValue.toInt ≤ i && i < UInt64.size

/-! ### Numbers with a point -/

/-- Appends digits to a number as long as it stays below `2 ^ 64`, and gives what
is left of the digits. -/
def fill (n : Nat) : Bytes → Nat × Bytes
  | [] => (n, [])
  | b :: rest =>
    let next := 10 * n + (b.toNat - 0x30)
    if next < UInt64.size then fill next rest else (n, b :: rest)

/-- The digits that are taken, as one number. What is left of the digits before
the point does not keep those behind it from being taken. -/
def significand (n : Numeral) : Nat := (fill (fill 0 n.whole).1 n.fraction).1

/-- The power of ten that goes with the significand. -/
def scale (n : Numeral) : Int :=
  let (start, left) := fill 0 n.whole
  let taken : Int := n.fraction.length - (fill start n.fraction).2.length
  n.exponent.getD 0 + left.length - taken

/-- The greatest exponent of a power of ten that is a number of 64 bits. -/
def powerLimit : Nat := 308

/-- The number of 64 bits nearest to a power of ten. -/
def power (k : Nat) : BinaryFloat .double := .ofFraction false (tenTo k) 1

/-- A number over a power of ten. Where the power is no number, there are two
divisions, and beyond two of them nothing is left of any significand. -/
def overPower (x : BinaryFloat .double) (k : Nat) : BinaryFloat .double :=
  if k ≤ powerLimit then x.quotient (power k)
  else if k ≤ 2 * powerLimit then (x.quotient (power powerLimit)).quotient (power (k - powerLimit))
  else .ofPattern x.isNegative 0

/-- A number times a power of ten, if that is finite. -/
def timesPower? (x : BinaryFloat .double) (k : Nat) : Option (BinaryFloat .double) :=
  if k ≤ powerLimit then some (x.product (power k)) |>.filter (·.isFinite)
  else if x.isZero then some x
  else none

/-- The number of 64 bits that the numeral is read as. A numeral that is too large
stands for nothing. -/
def double? (n : Numeral) : Option (BinaryFloat .double) :=
  let x : BinaryFloat .double := .ofFraction n.negative n.significand 1
  if n.scale < 0 then some (overPower x (-n.scale).toNat) else timesPower? x n.scale.toNat

/-- The number of 32 bits. An integer of 64 bits is rounded to it at once, any
other number by way of 64 bits. -/
def single? (n : Numeral) : Option (BinaryFloat .single) :=
  match n.int?.filter isWord with
  | some i => some (.ofInt i)
  | none => n.double?.map (·.convert)

/-! ### Writing -/

/-- The numeral of an integer. -/
def ofInt (i : Int) : Bytes :=
  (if i < 0 then [0x2d] else []) ++ (digitsOf i.natAbs).map Bytes.ascii

end Numeral

end KeyedSeries

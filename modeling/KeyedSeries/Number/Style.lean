import KeyedSeries.Number.Shortest

/-!
# Writing numbers

The digits of a number are one thing (`KeyedSeries.Rounding.shortest`), where
the point stands another. A `KeyedSeries.NumberStyle` holds the choices of one
kind of text: which numbers are written without an exponent, whether a whole
number still shows a point, and how a tie between two decimals goes. The
library has two kinds, the text shown to a reader
(`KeyedSeries.NumberStyle.display`) and the text kept in a stored document
(`KeyedSeries.NumberStyle.stored`).
-/

namespace KeyedSeries

/-- How a finite number is laid out. -/
structure NumberStyle where
  /-- Which of two equally near decimals is written. -/
  tie : Tie
  /-- The leading digits' exponents that are written without an exponent part;
  `none` stands for all. -/
  plain : Option (Int × Int)
  /-- Whether a whole number written without exponent ends in `.0`. -/
  pointed : Bool
  deriving DecidableEq, Repr

namespace NumberStyle

/-- Numbers are shown without exponent, and whole numbers without a point. -/
def display : NumberStyle := ⟨.up, none, false⟩

/-- Numbers are stored without exponent while their leading digit stands near
the point, and then always with a point. -/
def stored (f : BinaryFormat) : NumberStyle :=
  ⟨.even, some (if f = .single then (-6, 12) else (-5, 15)), true⟩

/-- Whether a number whose leading digit has exponent `e` has no exponent
part. -/
def isPlain (n : NumberStyle) (e : Int) : Bool :=
  match n.plain with
  | none => true
  | some (least, greatest) => least ≤ e && e ≤ greatest

end NumberStyle

/-- The digits of a whole number. -/
def digitsOf (n : Nat) : List Char := Nat.toDigits 10 n

/-- Drops the zeros at the end of a list of digits. -/
def dropTrailingZeros (ds : List Char) : List Char := (ds.reverse.dropWhile (· == '0')).reverse

/-- Digits whose first one has exponent `e`, written without exponent part. -/
def plainText (pointed : Bool) (ds : List Char) (e : Int) : List Char :=
  if e < 0 then ['0', '.'] ++ List.replicate (-e - 1).toNat '0' ++ ds
  else
    let whole := ds.take (e.toNat + 1)
    let padded := whole ++ List.replicate (e.toNat + 1 - whole.length) '0'
    match ds.drop (e.toNat + 1) with
    | [] => if pointed then padded ++ ['.', '0'] else padded
    | rest => padded ++ '.' :: rest

/-- Digits whose first one has exponent `e`, written with an exponent part that
always has a sign. -/
def exponentText (ds : List Char) (e : Int) : List Char :=
  let head := ds.take 1 ++ (match ds.drop 1 with
    | [] => []
    | rest => '.' :: rest)
  head ++ 'e' :: (if e < 0 then '-' else '+') :: digitsOf e.natAbs

namespace NumberStyle

/-- The text of a decimal that is not zero. -/
def decimalText (n : NumberStyle) (d : Decimal) : List Char :=
  let ds := digitsOf d.digits
  let e : Int := d.exponent + (ds.length - 1 : Nat)
  let shown := dropTrailingZeros ds
  if n.isPlain e then plainText n.pointed shown e else exponentText shown e

/-- The text of `significand * 2 ^ exponent` with its sign. -/
def finiteText (n : NumberStyle) (f : BinaryFormat) (negative : Bool) (significand : Nat)
    (exponent : Int) : List Char :=
  let sign := if negative then ['-'] else []
  if significand = 0 then sign ++ plainText n.pointed ['0'] 0
  else sign ++ n.decimalText ((Rounding.of f significand exponent).shortest n.tie)

end NumberStyle

namespace BinaryFloat

variable {f : BinaryFormat}

/-- The text shown to a reader. -/
def text (x : BinaryFloat f) : String :=
  match x.datum with
  | .nan => "NaN"
  | .infinity s => if s then "-inf" else "inf"
  | .finite s m e => String.ofList (NumberStyle.display.finiteText f s m e)

end BinaryFloat

end KeyedSeries

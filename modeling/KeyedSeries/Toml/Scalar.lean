import KeyedSeries.Number.Binary

/-!
# Plain values of configuration documents

A value that is neither quoted nor bracketed is one word of letters, digits and
signs: a truth value, an integer in one of four bases, a floating-point number,
or a moment in time (`KeyedSeries.TomlScalar.ofWord?`). Digits may have single
underscores between them.
-/

namespace KeyedSeries

/-- A plain value. Of numbers with a point and of moments nothing is kept but
that they are there. -/
inductive TomlScalar where
  /-- A truth value. -/
  | boolean (b : Bool)
  /-- A signed integer of 64 bits. -/
  | integer (i : Int)
  /-- A floating-point number. -/
  | float
  /-- A date, a time, or both. -/
  | moment
  deriving DecidableEq, Repr

namespace TomlScalar

/-! ### Digits -/

/-- Whether a character is a decimal digit. -/
def isDecimal (c : Char) : Bool := '0' ≤ c && c ≤ '9'

/-- Whether a character is an octal digit. -/
def isOctal (c : Char) : Bool := '0' ≤ c && c ≤ '7'

/-- Whether a character is a binary digit. -/
def isBinary (c : Char) : Bool := c == '0' || c == '1'

/-- Whether a character is a hexadecimal digit. -/
def isHex (c : Char) : Bool := isDecimal c || ('a' ≤ c && c ≤ 'f') || ('A' ≤ c && c ≤ 'F')

/-- The number of a digit of any base. -/
def digitValue (c : Char) : Nat :=
  if isDecimal c then c.toNat - 0x30 else if 'a' ≤ c then c.toNat - 0x57 else c.toNat - 0x37

/-- The number that digits of a base write; other characters do not count. -/
def numberOf (base : Nat) (isDigit : Char → Bool) (cs : List Char) : Nat :=
  (cs.filter isDigit).foldl (fun n c => base * n + digitValue c) 0

/-- Whether a word is made of digits, with single underscores between them. -/
def isDigits (isDigit : Char → Bool) : List Char → Bool
  | [] => false
  | [c] => isDigit c
  | c :: '_' :: rest => isDigit c && isDigits isDigit rest
  | c :: rest => isDigit c && isDigits isDigit rest

/-! ### Integers -/

/-- A sign in front of a word, and the word behind it. -/
def signed : List Char → Bool × List Char
  | '-' :: rest => (true, rest)
  | '+' :: rest => (false, rest)
  | cs => (false, cs)

/-- Whether a word is a decimal number without a needless zero in front. -/
def isWhole (cs : List Char) : Bool :=
  isDigits isDecimal cs && (cs.length == 1 || cs.head? != some '0')

/-- An integer, if it has 64 bits. -/
def inRange? (i : Int) : Option TomlScalar :=
  if Int64.minValue.toInt ≤ i ∧ i ≤ Int64.maxValue.toInt then some (integer i) else none

/-- The integer behind a base mark. -/
def based? (base : Nat) (isDigit : Char → Bool) (cs : List Char) : Option TomlScalar :=
  if isDigits isDigit cs then inRange? (numberOf base isDigit cs) else none

/-- The integer that a word writes. -/
def integer? : List Char → Option TomlScalar
  | '0' :: 'x' :: cs => based? 16 isHex cs
  | '0' :: 'o' :: cs => based? 8 isOctal cs
  | '0' :: 'b' :: cs => based? 2 isBinary cs
  | cs =>
    let (negative, digits) := signed cs
    if isWhole digits then inRange? (Datum.signed negative (numberOf 10 isDecimal digits)) else none

/-! ### Floating-point numbers -/

/-- A word before the exponent mark, and the word behind it if there is one. -/
def splitExponent (cs : List Char) : List Char × Option (List Char) :=
  let isMark := fun c => c == 'e' || c == 'E'
  match cs.dropWhile fun c => !isMark c with
  | [] => (cs, none)
  | _ :: rest => (cs.takeWhile fun c => !isMark c, some rest)

/-- A word before the point, and the word behind it if there is one. -/
def splitPoint (cs : List Char) : List Char × Option (List Char) :=
  match cs.dropWhile (· != '.') with
  | [] => (cs, none)
  | _ :: rest => (cs.takeWhile (· != '.'), some rest)

/-- Whether a number is beyond all numbers of 64 bits. -/
def overflows (digits : Nat) (exponent : Int) : Bool :=
  !(BinaryFloat.ofDecimal false digits exponent : BinaryFloat .double).isFinite

/-- The floating-point number that a word writes: with a fraction, an exponent,
or both. One that is too large is refused; one that is too small, however
negative, is not. -/
def float? (cs : List Char) : Option TomlScalar :=
  let (negative, body) := signed cs
  if body = ['i', 'n', 'f'] ∨ body = ['n', 'a', 'n'] then some float
  else
    let (mantissa, exponent) := splitExponent body
    let (whole, fraction) := splitPoint mantissa
    let (exponentNegative, exponentDigits) := signed (exponent.getD [])
    if (fraction.isSome || exponent.isSome) && isWhole whole &&
        fraction.all (isDigits isDecimal) &&
        (exponent.isNone || isDigits isDecimal exponentDigits) then
      let digits := whole ++ fraction.getD []
      let scale := Datum.signed exponentNegative (numberOf 10 isDecimal exponentDigits)
      let places := ((fraction.getD []).filter isDecimal).length
      if !negative && overflows (numberOf 10 isDecimal digits) (scale - places) then none
      else some float
    else none

/-! ### Moments -/

/-- Whether two digits write a number between two bounds. -/
def isPair (least greatest : Nat) (a b : Char) : Bool :=
  isDecimal a && isDecimal b &&
    (let n := numberOf 10 isDecimal [a, b]
     least ≤ n && n ≤ greatest)

/-- How many days a month has. -/
def daysOf (year month : Nat) : Nat :=
  if month = 2 then (if year % 4 = 0 ∧ (year % 100 ≠ 0 ∨ year % 400 = 0) then 29 else 28)
  else if month = 4 ∨ month = 6 ∨ month = 9 ∨ month = 11 then 30
  else 31

/-- What comes behind a date at the start of a word. -/
def afterDate? : List Char → Option (List Char)
  | y₁ :: y₂ :: y₃ :: y₄ :: '-' :: m₁ :: m₂ :: '-' :: d₁ :: d₂ :: rest =>
    let year := numberOf 10 isDecimal [y₁, y₂, y₃, y₄]
    let month := numberOf 10 isDecimal [m₁, m₂]
    if [y₁, y₂, y₃, y₄].all isDecimal && isPair 1 12 m₁ m₂ &&
        isPair 1 (daysOf year month) d₁ d₂ then some rest
    else none
  | _ => none

/-- What comes behind a time at the start of a word. -/
def afterTime? : List Char → Option (List Char)
  | h₁ :: h₂ :: ':' :: m₁ :: m₂ :: ':' :: s₁ :: s₂ :: rest =>
    if isPair 0 23 h₁ h₂ && isPair 0 59 m₁ m₂ && isPair 0 60 s₁ s₂ then
      match rest with
      | '.' :: rest =>
        if (rest.takeWhile isDecimal).isEmpty then none else some (rest.dropWhile isDecimal)
      | rest => some rest
    else none
  | _ => none

/-- Whether a word is a distance from universal time, or empty. -/
def isOffset : List Char → Bool
  | [] | ['Z'] | ['z'] => true
  | [sign, h₁, h₂, ':', m₁, m₂] =>
    (sign == '+' || sign == '-') && isPair 0 23 h₁ h₂ && isPair 0 59 m₁ m₂
  | _ => false

/-- Whether a word is a time with or without a distance from universal time. -/
def isZonedTime (cs : List Char) : Bool := (afterTime? cs).any isOffset

/-- Whether a word is a date alone. -/
def isDate (cs : List Char) : Bool := afterDate? cs == some []

/-- Whether a word is a moment. -/
def isMoment (cs : List Char) : Bool :=
  match afterDate? cs with
  | some [] => true
  | some (c :: rest) => (c == 'T' || c == 't') && isZonedTime rest
  | none => afterTime? cs == some []

/-! ### Words -/

/-- The plain value that a word writes. -/
def ofWord? (cs : List Char) : Option TomlScalar :=
  if cs = ['t', 'r', 'u', 'e'] then some (boolean true)
  else if cs = ['f', 'a', 'l', 's', 'e'] then some (boolean false)
  else if isMoment cs then some moment
  else
    match float? cs with
    | some x => some x
    | none => integer? cs

end TomlScalar

end KeyedSeries

import KeyedSeries.Text.Utf8

/-!
# Quoted text

Text in a document stands between quotes. What stands between them is its
**body**: quotes, backslashes and control characters are written by escapes,
everything else as it is (`KeyedSeries.Quoted.body`). A body can be well formed
and still be no text, because its bytes are no UTF-8 or an escape names half of
a pair (`KeyedSeries.Quoted.text?`).
-/

namespace KeyedSeries.Quoted

/-! ### Writing -/

/-- The digit of a number below sixteen. -/
def hexDigit (n : Nat) : UInt8 := (if n < 10 then 0x30 + n else 0x57 + n).toUInt8

/-- How a byte of a text is written. -/
def escapeByte (b : UInt8) : Bytes :=
  if b = 0x22 then [0x5c, 0x22]
  else if b = 0x5c then [0x5c, 0x5c]
  else if b = 0x08 then [0x5c, 0x62]
  else if b = 0x09 then [0x5c, 0x74]
  else if b = 0x0a then [0x5c, 0x6e]
  else if b = 0x0c then [0x5c, 0x66]
  else if b = 0x0d then [0x5c, 0x72]
  else if b < 0x20 then
    [0x5c, 0x75, 0x30, 0x30, hexDigit (b.toNat / 16), hexDigit (b.toNat % 16)]
  else [b]

/-- The body of a text. -/
def body (s : String) : Bytes := (Bytes.ofText s).flatMap escapeByte

/-! ### Reading -/

/-- The number of a hexadecimal digit. -/
def hexValue? (b : UInt8) : Option Nat :=
  if 0x30 ≤ b ∧ b ≤ 0x39 then some (b.toNat - 0x30)
  else if 0x61 ≤ b ∧ b ≤ 0x66 then some (b.toNat - 0x57)
  else if 0x41 ≤ b ∧ b ≤ 0x46 then some (b.toNat - 0x37)
  else none

/-- The number that four hexadecimal digits write. -/
def unit? (a b c d : UInt8) : Option Nat := do
  return 4096 * (← hexValue? a) + 256 * (← hexValue? b) + 16 * (← hexValue? c) + (← hexValue? d)

/-- The byte that an escape of one letter stands for. -/
def letter? (b : UInt8) : Option UInt8 :=
  if b = 0x22 ∨ b = 0x5c ∨ b = 0x2f then some b
  else if b = 0x62 then some 0x08
  else if b = 0x66 then some 0x0c
  else if b = 0x6e then some 0x0a
  else if b = 0x72 then some 0x0d
  else if b = 0x74 then some 0x09
  else none

/-- The body at the start of the bytes, and what comes behind the quote that
ends it. -/
def split? : Bytes → Option (Bytes × Bytes)
  | [] => none
  | 0x22 :: rest => some ([], rest)
  | 0x5c :: 0x75 :: a :: b :: c :: d :: rest =>
    if (unit? a b c d).isSome then
      (split? rest).map fun (body, rest) => (0x5c :: 0x75 :: a :: b :: c :: d :: body, rest)
    else none
  | 0x5c :: c :: rest =>
    if (letter? c).isSome then (split? rest).map fun (body, rest) => (0x5c :: c :: body, rest)
    else none
  | b :: rest =>
    if b < 0x20 ∨ b = 0x5c then none else (split? rest).map fun (body, rest) => (b :: body, rest)

/-- Whether a number is the first half of a pair. -/
def isHigh (n : Nat) : Bool := 0xd800 ≤ n && n < 0xdc00

/-- Whether a number is the second half of a pair. -/
def isLow (n : Nat) : Bool := 0xdc00 ≤ n && n < 0xe000

/-- The bytes that a body stands for. Halves of pairs are read together, and one
that stands alone is refused. -/
def unescape? : Bytes → Option Bytes
  | [] => some []
  | 0x5c :: 0x75 :: a :: b :: c :: d :: rest =>
    match unit? a b c d with
    | none => none
    | some n =>
      if isHigh n then
        match rest with
        | 0x5c :: 0x75 :: a' :: b' :: c' :: d' :: rest =>
          match unit? a' b' c' d' with
          | none => none
          | some m =>
            if isLow m then
              (unescape? rest).map
                (Bytes.ofChar (Char.ofNat (0x10000 + 0x400 * (n - 0xd800) + (m - 0xdc00))) ++ ·)
            else none
        | _ => none
      else if isLow n then none
      else (unescape? rest).map (Bytes.ofChar (Char.ofNat n) ++ ·)
  | 0x5c :: c :: rest =>
    match letter? c with
    | none => none
    | some b => (unescape? rest).map (b :: ·)
  | b :: rest => if b = 0x5c then none else (unescape? rest).map (b :: ·)

/-- The text that a body stands for. -/
def text? (body : Bytes) : Option String := (unescape? body).bind Bytes.toText?

end KeyedSeries.Quoted

import KeyedSeries.Json.Quoted

/-!
# Quoted text reads back

A text that was quoted ends where its closing quote stands
(`KeyedSeries.Quoted.split?_body`) and is the text again
(`KeyedSeries.Quoted.text?_body`). Both go byte by byte: what a byte is written as
stands for that byte, whatever follows.
-/

namespace KeyedSeries.Quoted

/-! ### One byte -/

theorem hexValue?_hexDigit : ∀ n < 16, hexValue? (hexDigit n) = some n := by decide

/-- The escape of a control character names its number. -/
theorem unit?_control (b : UInt8) :
    unit? 0x30 0x30 (hexDigit (b.toNat / 16)) (hexDigit (b.toNat % 16)) = some b.toNat := by
  have hb := b.toNat_lt
  have hzero : hexValue? 0x30 = some 0 := by decide
  rw [unit?, hzero, hexValue?_hexDigit _ (by omega), hexValue?_hexDigit _ (by omega)]
  simp only [Option.bind_eq_bind, Option.bind_some, Option.pure_def, Option.some.injEq]
  omega

/-- A byte below the blank is the encoding of the character of its number. -/
theorem ofChar_control {b : UInt8} (h : b < 0x20) : Bytes.ofChar (Char.ofNat b.toNat) = [b] := by
  have hlt : b.toNat < 32 := by simpa [UInt8.lt_iff_toNat_lt] using h
  have hall : ∀ n < 32, Bytes.ofChar (Char.ofNat n) = [n.toUInt8] := by decide
  rw [hall _ hlt]
  simp

theorem split?_escapeByte (b : UInt8) (rest : Bytes) :
    split? (escapeByte b ++ rest) =
      (split? rest).map fun (body, rest) => (escapeByte b ++ body, rest) := by
  unfold escapeByte
  iterate 7
    split
    · simp [split?, letter?]
  split
  · simp only [List.cons_append, List.nil_append]
    rw [split?, unit?_control]
    rfl
  · -- A byte that is written as it is neither ends the body nor starts an escape.
    rw [List.singleton_append, split?.eq_def]
    split <;> simp_all [-UInt8.not_lt]

theorem unescape?_escapeByte (b : UInt8) (rest : Bytes) :
    unescape? (escapeByte b ++ rest) = (unescape? rest).map (b :: ·) := by
  unfold escapeByte
  iterate 7
    split
    · simp_all [unescape?, letter?]
  split
  · next hcontrol =>
    have hlt : b.toNat < 32 := by simpa [UInt8.lt_iff_toNat_lt] using hcontrol
    simp only [List.cons_append, List.nil_append]
    rw [unescape?, unit?_control]
    have hhigh : isHigh b.toNat = false := by
      simp only [isHigh, Bool.and_eq_false_iff, decide_eq_false_iff_not]
      omega
    have hlow : isLow b.toNat = false := by
      simp only [isLow, Bool.and_eq_false_iff, decide_eq_false_iff_not]
      omega
    simp only [hhigh, hlow, Bool.false_eq_true, if_false, ofChar_control hcontrol]
    rfl
  · rw [List.singleton_append, unescape?.eq_def]
    split <;> simp_all

/-! ### Whole texts -/

theorem split?_flatMap_escapeByte (bs rest : Bytes) :
    split? (bs.flatMap escapeByte ++ 0x22 :: rest) = some (bs.flatMap escapeByte, rest) := by
  induction bs with
  | nil => simp [split?]
  | cons b bs ih => rw [List.flatMap_cons, List.append_assoc, split?_escapeByte, ih]; rfl

/-- **A quoted text ends at its closing quote.** -/
theorem split?_body (s : String) (rest : Bytes) :
    split? (body s ++ 0x22 :: rest) = some (body s, rest) := split?_flatMap_escapeByte ..

/-- Bytes that need no escape end at the quote behind them. -/
theorem split?_plain {text : Bytes} (h : ∀ b ∈ text, 0x20 ≤ b ∧ b ≠ 0x22 ∧ b ≠ 0x5c)
    (rest : Bytes) :
    split? (text ++ 0x22 :: rest) = some (text, rest) := by
  induction text with
  | nil => simp [split?]
  | cons b text ih =>
    obtain ⟨⟨hcontrol, hquote, hback⟩, htext⟩ := List.forall_mem_cons.mp h
    rw [List.cons_append, split?.eq_def]
    split <;> simp_all [UInt8.not_lt]

theorem unescape?_flatMap_escapeByte (bs : Bytes) :
    unescape? (bs.flatMap escapeByte) = some bs := by
  induction bs with
  | nil => simp [unescape?]
  | cons b bs ih => rw [List.flatMap_cons, unescape?_escapeByte, ih]; rfl

/-- **A quoted text is the text again.** -/
@[simp] theorem text?_body (s : String) : text? (body s) = some s := by
  rw [text?, body, unescape?_flatMap_escapeByte, Option.bind_some, Bytes.toText?_ofText]

end KeyedSeries.Quoted

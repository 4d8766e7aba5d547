/-!
# Text as bytes

Cells and files hold bytes; text in them is UTF-8. Reading is strict: bytes
that no text is encoded as are no text (`KeyedSeries.Bytes.toText?`), and
**bytes that are text have exactly one reading**
(`KeyedSeries.Bytes.toText?_eq_some_iff`).
-/

namespace KeyedSeries

/-- A sequence of bytes. -/
abbrev Bytes := List UInt8

namespace Bytes

/-- The UTF-8 encoding of a text. -/
def ofText (s : String) : Bytes := s.toByteArray.data.toList

/-- The text that the bytes encode, if they do encode one. -/
def toText? (b : Bytes) : Option String := String.fromUTF8? ⟨b.toArray⟩

/-- The UTF-8 encoding of one character. -/
def ofChar (c : Char) : Bytes := String.utf8EncodeChar c

/-- The byte of an ASCII character. -/
def ascii (c : Char) : UInt8 := c.toUInt8

theorem toText?_eq_some_iff {b : Bytes} {s : String} : toText? b = some s ↔ b = ofText s := by
  unfold toText? ofText String.fromUTF8?
  constructor
  · intro h
    split at h
    · simp only [Option.some.injEq] at h
      rw [← h]
      rfl
    · exact absurd h (by simp)
  · rintro rfl
    have h : (⟨s.toByteArray.data.toList.toArray⟩ : ByteArray) = s.toByteArray := by simp
    rw [dif_pos (h ▸ s.isValidUTF8)]
    rfl

@[simp] theorem toText?_ofText (s : String) : toText? (ofText s) = some s :=
  toText?_eq_some_iff.mpr rfl

end Bytes

end KeyedSeries

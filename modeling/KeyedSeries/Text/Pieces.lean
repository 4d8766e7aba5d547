/-!
# Cutting text at a separator

A text is cut at every separator, so that there is one piece more than there are
separators (`KeyedSeries.length_pieces`) and the pieces with separators between
them are the text again (`KeyedSeries.joined_pieces`).
-/

namespace KeyedSeries

/-- The pieces of a text between separators; some of them may be empty. -/
def pieces (separator : Char) : List Char → List (List Char)
  | [] => [[]]
  | c :: rest =>
    if c = separator then [] :: pieces separator rest
    else
      match pieces separator rest with
      | [] => [[c]]
      | p :: ps => (c :: p) :: ps

/-- Pieces with a separator between every two of them. -/
def joined (separator : Char) : List (List Char) → List Char
  | [] => []
  | [p] => p
  | p :: ps => p ++ separator :: joined separator ps

theorem pieces_ne_nil (separator : Char) (t : List Char) : pieces separator t ≠ [] := by
  cases t with
  | nil => simp [pieces]
  | cons c rest =>
    unfold pieces
    split
    · simp
    · split <;> simp

theorem length_pieces (separator : Char) (t : List Char) :
    (pieces separator t).length = t.count separator + 1 := by
  induction t with
  | nil => rfl
  | cons c rest ih =>
    unfold pieces
    by_cases h : c = separator
    · simp [h, ih]
    · have hc : List.count separator (c :: rest) = rest.count separator :=
        List.count_cons_of_ne h
      rw [if_neg h, hc, ← ih]
      split
      · next hnil => exact absurd hnil (pieces_ne_nil separator rest)
      · next hcons => simp [hcons]

theorem joined_pieces (separator : Char) (t : List Char) :
    joined separator (pieces separator t) = t := by
  induction t with
  | nil => rfl
  | cons c rest ih =>
    unfold pieces
    by_cases h : c = separator
    · rw [if_pos h]
      cases hp : pieces separator rest with
      | nil => exact absurd hp (pieces_ne_nil separator rest)
      | cons p ps =>
        rw [hp] at ih
        simp [joined, ih, h]
    · rw [if_neg h]
      cases hp : pieces separator rest with
      | nil => exact absurd hp (pieces_ne_nil separator rest)
      | cons p ps =>
        rw [hp] at ih
        cases ps with
        | nil => simpa [joined] using ih
        | cons q qs => simpa [joined] using ih

end KeyedSeries

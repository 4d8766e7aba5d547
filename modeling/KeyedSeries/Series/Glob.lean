/-!
# Globs over series paths

A path in which a star stands is a glob. A star stands for any characters but a
line break, and everything else for itself
(`KeyedSeries.Glob.Matches`). The matcher goes through the glob from its end and
keeps, for every suffix of the text, whether the rest of the glob matches it, so
that a star costs no more than a letter (`KeyedSeries.Glob.accepts_iff`).

A glob may be of any length. Where globs are compiled to patterns, one that comes
out larger than patterns may be is refused; here none is.
-/

namespace KeyedSeries.Glob

/-- The character that stands for any others. -/
def star : Char := '*'

/-- The character that no star stands for. -/
def lineBreak : Char := '\n'

/-- Whether a path is a glob. -/
def isGlob (path : String) : Bool := path.toList.contains star

/-- Whether a glob matches a text. -/
inductive Matches : List Char → List Char → Prop where
  /-- The empty glob matches the empty text. -/
  | nil : Matches [] []
  /-- A letter matches itself. -/
  | letter {c : Char} {p t : List Char} : c ≠ star → Matches p t → Matches (c :: p) (c :: t)
  /-- A star matches nothing. -/
  | none {p t : List Char} : Matches p t → Matches (star :: p) t
  /-- A star matches one character more. -/
  | more {c : Char} {p t : List Char} :
    c ≠ lineBreak → Matches (star :: p) t → Matches (star :: p) (c :: t)

/-- From the matches of `p` on the suffixes of a text, those of a letter before
`p`. -/
def letterRow (c : Char) : List Char → List Bool → List Bool
  | a :: t, _ :: row => (a == c && row.headD false) :: letterRow c t row
  | _, _ => [false]

/-- From the matches of `p` on the suffixes of a text, those of a star before
`p`. -/
def starRow : List Char → List Bool → List Bool
  | a :: t, m :: row =>
    let later := starRow t row
    (m || (a != lineBreak && later.headD false)) :: later
  | _, row => row

/-- Whether a glob matches the suffixes of a text, the longest one first. -/
def row (t : List Char) : List Char → List Bool
  | [] => t.map (fun _ => false) ++ [true]
  | c :: p => if c = star then starRow t (row t p) else letterRow c t (row t p)

/-- Whether a glob matches a text. -/
def accepts (glob text : String) : Bool := (row text.toList glob.toList).headD false

/-! ### The matcher and the matches -/

theorem row_cons (a : Char) (t p : List Char) : ∃ b, row (a :: t) p = b :: row t p := by
  induction p with
  | nil => exact ⟨false, rfl⟩
  | cons c p ih =>
    obtain ⟨b, hb⟩ := ih
    unfold row
    split
    · exact ⟨_, by rw [hb]; rfl⟩
    · exact ⟨_, by rw [hb]; rfl⟩

theorem matches_star_iff {p t : List Char} :
    Matches (star :: p) t ↔
      Matches p t ∨ ∃ c u, t = c :: u ∧ c ≠ lineBreak ∧ Matches (star :: p) u := by
  constructor
  · intro h
    cases h with
    | letter hc => exact absurd rfl hc
    | none h => exact .inl h
    | more hc h => exact .inr ⟨_, _, rfl, hc, h⟩
  · rintro (h | ⟨c, u, rfl, hc, h⟩)
    · exact .none h
    · exact .more hc h

theorem matches_letter_iff {c : Char} (hc : c ≠ star) {p t : List Char} :
    Matches (c :: p) t ↔ ∃ u, t = c :: u ∧ Matches p u := by
  constructor
  · intro h
    cases h with
    | letter _ h => exact ⟨_, rfl, h⟩
    | none => exact absurd rfl hc
    | more => exact absurd rfl hc
  · rintro ⟨u, rfl, h⟩
    exact .letter hc h

theorem headD_row {p t : List Char} : (row t p).headD false = true ↔ Matches p t := by
  induction p generalizing t with
  | nil =>
    cases t with
    | nil => exact ⟨fun _ => .nil, fun _ => rfl⟩
    | cons a t => exact ⟨fun h => by simp [row] at h, nofun⟩
  | cons c p ih =>
    by_cases hc : c = star
    · subst hc
      induction t with
      | nil =>
        rw [matches_star_iff]
        simpa [row, starRow] using ih
      | cons a t iht =>
        obtain ⟨b, hb⟩ := row_cons a t p
        have hm : b = true ↔ Matches p (a :: t) := by rw [← ih, hb]; rfl
        have hl : (starRow t (row t p)).headD false = true ↔ Matches (star :: p) t := by
          simpa [row] using iht
        rw [matches_star_iff]
        simp only [row, if_true, hb, starRow, List.headD_cons, Bool.or_eq_true, Bool.and_eq_true,
          hm, hl, bne_iff_ne, ne_eq, List.cons.injEq]
        refine or_congr_right ⟨fun ⟨h, hu⟩ => ⟨a, t, ⟨rfl, rfl⟩, h, hu⟩, ?_⟩
        rintro ⟨_, _, ⟨rfl, rfl⟩, h, hu⟩
        exact ⟨h, hu⟩
    · rw [matches_letter_iff hc]
      cases t with
      | nil => simp [row, hc, letterRow]
      | cons a t =>
        obtain ⟨b, hb⟩ := row_cons a t p
        simp only [row, hc, if_false, hb, letterRow, List.headD_cons, Bool.and_eq_true,
          beq_iff_eq, ih, List.cons.injEq]
        exact ⟨fun ⟨h, hm⟩ => ⟨t, ⟨h, rfl⟩, hm⟩, fun ⟨_, ⟨h, ht⟩, hm⟩ => ⟨h, ht ▸ hm⟩⟩

/-- **The matcher finds exactly the matches.** -/
theorem accepts_iff {glob text : String} :
    accepts glob text = true ↔ Matches glob.toList text.toList := headD_row

end KeyedSeries.Glob

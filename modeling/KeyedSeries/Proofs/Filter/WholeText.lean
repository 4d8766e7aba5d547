import KeyedSeries.Proofs.Filter.Patterns
import KeyedSeries.Proofs.Regex.Enclosed

/-!
# Patterns of whole texts

A value is compared with a pattern by `like`. **The filter accepts the row just if the pattern is
one on its own and matches the whole text** (`KeyedSeries.Filter.accepts_like_iff`), whether the
filter holds the pattern itself or finds it in the row, and whether it is prepared or not.

This is so for patterns that are not stopped by a closing parenthesis, and that fit into what they
are enclosed in, by what they say and by the size of what comes of it. It holds for every library of
patterns, whatever properties it knows and wherever its limit on sizes is. A stopped text is no
pattern on its own (`KeyedSeries.Regex.ofSyntax?_eq_none_of_isStopped`) and may still be one when it
is enclosed: its own parentheses then close and open the group around it, and it can match a part of
a text; and a comment that is open at the end of a pattern makes it no pattern when it is enclosed
(`KeyedSeries.Filter.like_stray_parenthesis`).
-/

namespace KeyedSeries

/-- A text is a pattern on its own, and matches another text from its start to its end. -/
def MatchesWhole [PatternLibrary] (pattern text : String) : Prop :=
  ∃ r, Regex.ofSyntax? pattern = some r ∧ r.Matches text.toList.toArray 0 text.toList.length

/-- A pattern fits into what it is enclosed in, and what comes of it is not too large. -/
structure FitsWhole [PatternLibrary] (pattern : String) : Prop extends Written.Fits pattern where
  /-- The enclosed pattern keeps within the limit on sizes. -/
  small : PatternLibrary.isSmall ("^(?:" ++ pattern ++ ")$") = true

/-- A pattern that fits is prepared to its own expression, enclosed; any other one to nothing. -/
theorem wholeText?_eq_some_iff [PatternLibrary] {pattern : String}
    (hp : ¬ Written.IsStopped pattern) {r : Regex} :
    wholeText? pattern = some r ↔
      ∃ r', Regex.ofSyntax? pattern = some r' ∧ FitsWhole pattern ∧ r = r'.whole := by
  rw [wholeText?, Regex.ofPattern?_eq_some_iff, Regex.ofSyntax?_enclosed_eq_some_iff hp]
  constructor
  · rintro ⟨hsmall, r', hpattern, hfits, rfl⟩
    exact ⟨r', hpattern, ⟨hfits, hsmall⟩, rfl⟩
  · rintro ⟨r', hpattern, hfits, rfl⟩
    exact ⟨hfits.small, r', hpattern, hfits.toFits, rfl⟩

/-- The pattern is prepared to what matches whole texts. -/
theorem matchesText_wholeText?_iff [PatternLibrary] {pattern : String}
    (hp : ¬ Written.IsStopped pattern) (text : String) :
    matchesText (wholeText? pattern) text = true ↔
      MatchesWhole pattern text ∧ FitsWhole pattern := by
  constructor
  · intro h
    cases hr : wholeText? pattern with
    | none =>
      rw [hr] at h
      cases h
    | some r =>
      obtain ⟨r', hpattern, hfits, rfl⟩ := (wholeText?_eq_some_iff hp).mp hr
      rw [hr] at h
      have hmatch := (Regex.isMatch_whole_iff (Regex.inOrder_of_ofSyntax? hpattern) text).mp h
      exact ⟨⟨r', hpattern, hmatch⟩, hfits⟩
  · rintro ⟨⟨r, hpattern, hmatch⟩, hfits⟩
    rw [(wholeText?_eq_some_iff hp).mpr ⟨r, hpattern, hfits, rfl⟩]
    exact (Regex.isMatch_whole_iff (Regex.inOrder_of_ofSyntax? hpattern) text).mpr hmatch

namespace Filter

/-- A filter compares the value under a path with a pattern. -/
inductive Likes (row : FilterRow) (path pattern : String) : Filter → Prop
  /-- The filter holds the pattern. -/
  | held : Likes row path pattern (cell path .like (.ofText pattern))
  /-- The row holds it under another path. -/
  | found {other : String} (h : row.value other = some (.ofText pattern)) :
    Likes row path pattern (cells path .like other)

theorem compareWith_like (regex : String → Option Regex) (text pattern : String) :
    compareWith regex (.ofText text) .like (.ofText pattern) =
      matchesText (regex pattern) text := by
  simp [compareWith, Value.text?, Value.ofText]

/-- **A pattern is accepted just if it is one on its own and matches the whole text**, as long as
it is not stopped and fits into what it is enclosed in. -/
theorem accepts_like_iff [PatternLibrary] {row : FilterRow} {path pattern text : String}
    {f : Filter} (hp : ¬ Written.IsStopped pattern) (hvalue : row.value path = some (.ofText text))
    (hf : Likes row path pattern f) :
    (f.accepts row = true ↔ MatchesWhole pattern text ∧ FitsWhole pattern) ∧
      (f.prepare.accepts row = true ↔ MatchesWhole pattern text ∧ FitsWhole pattern) := by
  have haccepts : f.accepts row = matchesText (wholeText? pattern) text := by
    cases hf with
    | held => simp [accepts, acceptsWith, hvalue, compareWith_like]
    | found h => simp [accepts, acceptsWith, hvalue, h, compareWith_like]
  rw [accepts_prepare, haccepts]
  exact ⟨matchesText_wholeText?_iff hp text, matchesText_wholeText?_iff hp text⟩

/-- A row with the text `b` that holds the pattern `a|b` under another path. -/
theorem accepts_like_iff_either :
    MatchesWhole "a|b" "b" ∧
      (cells "text" .like "pattern").prepare.accepts
        ⟨1, fun path => some (.ofText (if path = "pattern" then "a|b" else "b"))⟩ = true := by
  have hp : ¬ Written.IsStopped "a|b" := by decide +kernel
  have hrow :
      (⟨1, fun _ => some (.ofText "b")⟩ : FilterRow).value "text" = some (.ofText "b") := rfl
  have hheld := (accepts_like_iff hp hrow .held).1.mp (by decide +kernel)
  exact ⟨hheld.1, (accepts_like_iff hp rfl (.found rfl)).2.mpr hheld⟩

/-- **A stray parenthesis and an open comment** change what the pattern is enclosed in: the first
text is no pattern and matches a part of the value, the second one matches the value and is not
accepted. -/
theorem like_stray_parenthesis :
    (Regex.ofSyntax? "a)|(?:b" = none ∧
      (cell "text" .like (.ofText "a)|(?:b")).accepts ⟨1, fun _ => some (.ofText "ax")⟩ = true) ∧
    (MatchesWhole "(?x)a#" "a" ∧
      (cell "text" .like (.ofText "(?x)a#")).accepts ⟨1, fun _ => some (.ofText "a")⟩ = false) := by
  have hstopped : Written.IsStopped "a)|(?:b" := by decide +kernel
  refine ⟨⟨Regex.ofSyntax?_eq_none_of_isStopped hstopped, by decide +kernel⟩, ?_, by decide +kernel⟩
  refine ⟨.seq .empty (.seq (.chars (.singleton 'a')) .empty), by decide +kernel, ?_⟩
  exact ⟨0, rfl, 1, ⟨rfl, 'a', rfl, by decide +kernel⟩, rfl⟩

end Filter

end KeyedSeries

import KeyedSeries.Proofs.Regex.ClosingAlternatives
import KeyedSeries.Proofs.Regex.InOrder
import KeyedSeries.Proofs.Regex.Search

/-!
# A pattern that is enclosed

A pattern that has to match a whole text is enclosed in a group between the start and the end of
the text, and this is done to the text of the pattern, before it is read. **If no closing
parenthesis stops it early, what is read is the pattern's own expression in the group**
(`KeyedSeries.Written.read?_enclosed_eq_some_iff`), with two exceptions: a comment that is open at
the end of the pattern takes in what is put behind, and the group nests two levels deeper.

The expression in the group then matches the texts that the pattern's own expression matches from
their start to their end (`KeyedSeries.Regex.isMatch_whole_iff`).
-/

namespace KeyedSeries

open PatternCursor

/-! ### Reading -/

namespace Written

variable {pattern : String} {w : Written}

/-- A pattern is stopped before its end, by a closing parenthesis that closes no group. -/
def IsStopped (pattern : String) : Prop := ∃ x, readTo? pattern = some x ∧ x.2.rest ≠ []

instance (pattern : String) : Decidable (IsStopped pattern) :=
  decidable_of_iff ((readTo? pattern).any fun x => !x.2.rest.isEmpty) (by
    cases h : readTo? pattern <;> simp [IsStopped, h])

/-- Only a text that is no pattern is stopped. -/
theorem not_isStopped_of_read? (h : read? pattern = some w) : ¬ IsStopped pattern := by
  obtain ⟨cur, hto, hrest, -⟩ := read?_eq_some_iff.mp h
  rintro ⟨x, hx, hne⟩
  rw [hto] at hx
  cases hx
  exact hne hrest

/-- With the closing behind it a pattern is read as without, up to the closing, or it is read into
the closing. -/
theorem agree_readTo? (pattern : String) :
    Agree Past (readTo? pattern) (readTo? (pattern ++ ")$")) := by
  have htext : (pattern ++ ")$").toList = pattern.toList ++ closing := String.toList_append
  unfold readTo?
  rw [htext]
  exact agree_readAlternatives (follows_append pattern.toList false []) (Nat.lt_succ_self _)
    (Nat.lt_succ_self _) [] []

/-- What is put before a pattern is read first, and the pattern is read as the body of a group. -/
theorem readTo?_enclosed (pattern : String) :
    readTo? ("^(?:" ++ pattern ++ ")$") =
      (readTo? (pattern ++ ")$")).bind fun x =>
        (leaveGroup? false x.2).bind fun behind =>
          readAlternatives (pattern.toList.length + 5) behind []
            [.group [] x.1, .anchor .caret] := by
  have htext : (pattern ++ ")$").toList = pattern.toList ++ closing := String.toList_append
  have henclosed : ("^(?:" ++ pattern ++ ")$").toList =
      '^' :: '(' :: '?' :: ':' :: (pattern.toList ++ closing) := by
    rw [String.append_assoc, String.toList_append, htext]
    rfl
  have hlength : (pattern.toList ++ closing).length = pattern.toList.length + 2 :=
    List.length_append
  have hbody : readAlternatives (pattern.toList.length + 5)
      ⟨pattern.toList ++ closing, false, []⟩ [] [] = readTo? (pattern ++ ")$") := by
    rw [readTo?, htext]
    exact readAlternatives_eq_of_lt (by simp [hlength]) (Nat.lt_succ_self _) [] []
  rw [readTo?, henclosed]
  calc
    _ = readAlternatives (pattern.toList.length + 7)
          ⟨'^' :: '(' :: '?' :: ':' :: (pattern.toList ++ closing), false, []⟩ [] [] :=
        readAlternatives_eq_of_lt (Nat.lt_succ_self _) (by simp [hlength]) [] []
    _ = readAlternatives (pattern.toList.length + 6)
          ⟨'(' :: '?' :: ':' :: (pattern.toList ++ closing), false, []⟩ [] [.anchor .caret] :=
        readAlternatives_succ _ _ [] []
    _ = (readAlternatives (pattern.toList.length + 5)
          ⟨pattern.toList ++ closing, false, []⟩ [] []).bind _ :=
        readAlternatives_succ _ _ [] _
    _ = _ := by
        rw [hbody]
        rfl

/-- An expression in a group, between the start and the end of the text. -/
def enclosed (w : Written) : Written := .concat [.anchor .caret, .group [] w, .anchor .dollar]

theorem depth_enclosed (w : Written) : w.enclosed.depth = w.depth + 2 := by
  simp only [enclosed, depth, depth.depths]
  omega

theorem readTo?_enclosed_of_closing {skips : Bool} {names : List String}
    (h : readTo? (pattern ++ ")$") = some (w, ⟨closing, skips, names⟩)) :
    readTo? ("^(?:" ++ pattern ++ ")$") = some (w.enclosed, ⟨[], false, names⟩) := by
  rw [readTo?_enclosed, h]
  rfl

/-- A pattern that is read into the closing leaves nothing that could close the group. -/
theorem readTo?_enclosed_of_past {x : Written × PatternCursor}
    (h : readTo? (pattern ++ ")$") = some x) (hpast : Past x) :
    readTo? ("^(?:" ++ pattern ++ ")$") = none := by
  obtain ⟨body, l, skips, names⟩ := x
  have hpast : l <:+ ['$'] := hpast
  have hleave : leaveGroup? false ⟨l, skips, names⟩ = none := by
    rcases List.suffix_cons_iff.mp hpast with rfl | hnil
    · rfl
    · rw [List.suffix_nil.mp hnil]
      rfl
  rw [readTo?_enclosed, h, Option.bind_some]
  dsimp only
  rw [hleave, Option.bind_none]

/-- Behind a pattern that was read to its end the closing is left; or it was taken in by a comment
that is open at the end of the pattern. -/
theorem readTo?_closing {skips : Bool} {names : List String}
    (h : readTo? pattern = some (w, ⟨[], skips, names⟩)) :
    readTo? (pattern ++ ")$") = some (w, ⟨closing, skips, names⟩) ∨
      readTo? (pattern ++ ")$") = some (w, ⟨[], skips, names⟩) := by
  obtain ⟨⟨w', cur⟩, hto, hw, hfollows⟩ := (agree_readTo? pattern).given _ h
  cases hw
  have hfollows : Follows ⟨[], skips, names⟩ cur := hfollows
  cases hfollows with
  | before => exact .inl hto
  | swallowed => exact .inr hto

/-- A pattern in which nothing can be read has no expression when it is enclosed either. -/
theorem readTo?_enclosed_of_none (h : readTo? pattern = none) :
    readTo? ("^(?:" ++ pattern ++ ")$") = none := by
  cases hto : readTo? (pattern ++ ")$") with
  | none => rw [readTo?_enclosed, hto, Option.bind_none]
  | some x => exact readTo?_enclosed_of_past hto ((agree_readTo? pattern).alone h x hto)

/-- A pattern fits into what it is enclosed in. -/
structure Fits (pattern : String) : Prop where
  /-- No comment is open at its end, which would take in what is put behind. -/
  closing : read? (pattern ++ ")$") = none
  /-- The nesting leaves room for the two levels around it. -/
  depth : ∀ w, read? pattern = some w → w.depth + 2 ≤ nestLimit

/-- **An enclosed pattern is read as its own expression, enclosed.** -/
theorem read?_enclosed_eq_some_iff (hp : ¬ IsStopped pattern) {e : Written} :
    read? ("^(?:" ++ pattern ++ ")$") = some e ↔
      ∃ w, read? pattern = some w ∧ Fits pattern ∧ e = w.enclosed := by
  constructor
  · intro h
    obtain ⟨cur, hto, -, hdepth⟩ := read?_eq_some_iff.mp h
    cases hpattern : readTo? pattern with
    | none =>
      rw [readTo?_enclosed_of_none hpattern] at hto
      cases hto
    | some x =>
      obtain ⟨w, l, skips, names⟩ := x
      obtain rfl : l = [] := by_contra fun hl => hp ⟨_, hpattern, hl⟩
      rcases readTo?_closing hpattern with hclosing | hclosing
      · rw [readTo?_enclosed_of_closing hclosing] at hto
        cases hto
        rw [depth_enclosed] at hdepth
        have hread : read? pattern = some w :=
          read?_eq_some_iff.mpr ⟨_, hpattern, rfl, (Nat.le_add_right _ 2).trans hdepth⟩
        refine ⟨w, hread, ⟨Option.eq_none_iff_forall_ne_some.mpr fun w' hw' => ?_, ?_⟩, rfl⟩
        · -- The closing is left, so that the pattern does not go on to its end.
          obtain ⟨_, hto', hrest, -⟩ := read?_eq_some_iff.mp hw'
          rw [hclosing] at hto'
          cases hto'
          cases hrest
        · intro w' hw'
          rw [hread] at hw'
          cases hw'
          exact hdepth
      · rw [readTo?_enclosed_of_past hclosing List.nil_suffix] at hto
        cases hto
  · rintro ⟨w, hread, hfits, rfl⟩
    have hdepth := hfits.depth w hread
    obtain ⟨⟨l, skips, names⟩, hpattern, hrest, -⟩ := read?_eq_some_iff.mp hread
    cases hrest
    rcases readTo?_closing hpattern with hclosing | hclosing
    · refine read?_eq_some_iff.mpr ⟨_, readTo?_enclosed_of_closing hclosing, rfl, ?_⟩
      rwa [depth_enclosed]
    · have h := read?_eq_some_iff.mpr ⟨_, hclosing, rfl, (Nat.le_add_right _ 2).trans hdepth⟩
      rw [hfits.closing] at h
      cases h

end Written

/-! ### Matching -/

namespace Regex

/-- An expression between the start and the end of the text. -/
def whole (r : Regex) : Regex := .seq (.look .textStart) (.seq r (.seq (.look .textEnd) .empty))

theorem charBefore_eq_none_iff {text : Array Char} {i : Nat} (hi : i ≤ text.size) :
    charBefore text i = none ↔ i = 0 := by
  unfold charBefore
  split
  · next h => simp [h]
  · next h =>
    rw [Array.getElem?_eq_none_iff]
    omega

/-- It matches the whole text, or nothing. -/
theorem matches_whole_iff {r : Regex} {text : Array Char} {i j : Nat} (hi : i ≤ text.size) :
    r.whole.Matches text i j ↔ i = 0 ∧ j = text.size ∧ r.Matches text 0 text.size := by
  have hend {k : Nat} (hk : k ≤ text.size) : text[k]? = none ↔ k = text.size := by
    rw [Array.getElem?_eq_none_iff]
    omega
  constructor
  · rintro ⟨_, ⟨rfl, hstart⟩, k, hr, _, ⟨rfl, hbehind⟩, rfl⟩
    have hstart : (charBefore text i).isNone = true := hstart
    have hbehind : text[k]?.isNone = true := hbehind
    obtain rfl := (charBefore_eq_none_iff hi).mp (Option.isNone_iff_eq_none.mp hstart)
    obtain rfl := (hend (hr.le_size hi)).mp (Option.isNone_iff_eq_none.mp hbehind)
    exact ⟨rfl, rfl, hr⟩
  · rintro ⟨rfl, rfl, hr⟩
    have hbehind : text[text.size]?.isNone = true :=
      Option.isNone_iff_eq_none.mpr ((hend (Nat.le_refl _)).mpr rfl)
    exact ⟨0, ⟨rfl, rfl⟩, text.size, hr, text.size, ⟨rfl, hbehind⟩, rfl⟩

/-- **Between the start and the end an expression matches the texts that it matches as a whole.** -/
theorem isMatch_whole_iff {r : Regex} (hr : r.InOrder) (text : String) :
    r.whole.isMatch text = true ↔ r.Matches text.toList.toArray 0 text.toList.length := by
  have hwhole : r.whole.InOrder := ⟨trivial, hr, trivial, trivial⟩
  rw [isMatch_iff hwhole]
  constructor
  · rintro ⟨i, hi, j, hmatch⟩
    exact ((matches_whole_iff hi).mp hmatch).2.2
  · intro hmatch
    exact ⟨0, Nat.zero_le _, _, (matches_whole_iff (Nat.zero_le _)).mpr ⟨rfl, rfl, hmatch⟩⟩

end Regex

/-- An enclosed expression means what the expression means, between the start and the end. -/
theorem Written.meaning?_enclosed [PatternLibrary] (w : Written) :
    w.enclosed.meaning? .start = (w.meaning? .start).map fun x => (x.1.whole, .start) := by
  have hchanges : FlagState.start.changeAll [] = .start := rfl
  have hcaret : FlagState.start.look .caret = .textStart := rfl
  have hdollar : FlagState.start.look .dollar = .textEnd := rfl
  cases h : w.meaning? .start <;>
    simp [enclosed, meaning?, inTurn?, hchanges, hcaret, hdollar, h, Regex.whole]

namespace Regex

variable [PatternLibrary] {pattern : String}

/-- A stopped text is no pattern by its syntax. -/
theorem ofSyntax?_eq_none_of_isStopped (hp : Written.IsStopped pattern) :
    ofSyntax? pattern = none := by
  refine Option.eq_none_iff_forall_ne_some.mpr fun r hr => ?_
  obtain ⟨w, s, hread, -⟩ := ofSyntax?_eq_some_iff.mp hr
  exact Written.not_isStopped_of_read? hread hp

/-- **An enclosed pattern is the pattern's own expression, enclosed.** -/
theorem ofSyntax?_enclosed_eq_some_iff (hp : ¬ Written.IsStopped pattern) {r : Regex} :
    ofSyntax? ("^(?:" ++ pattern ++ ")$") = some r ↔
      ∃ r', ofSyntax? pattern = some r' ∧ Written.Fits pattern ∧ r = r'.whole := by
  simp only [ofSyntax?_eq_some_iff]
  constructor
  · rintro ⟨e, s, hread, henclosed⟩
    obtain ⟨w, hw, hfits, rfl⟩ := (Written.read?_enclosed_eq_some_iff hp).mp hread
    rw [Written.meaning?_enclosed] at henclosed
    obtain ⟨⟨r', s'⟩, hmeaning, hresult⟩ := Option.map_eq_some_iff.mp henclosed
    cases hresult
    exact ⟨r', ⟨w, s', hw, hmeaning⟩, hfits, rfl⟩
  · rintro ⟨r', ⟨w, s, hw, hmeaning⟩, hfits, rfl⟩
    have hread := (Written.read?_enclosed_eq_some_iff hp).mpr ⟨w, hw, hfits, rfl⟩
    refine ⟨w.enclosed, .start, hread, ?_⟩
    rw [Written.meaning?_enclosed, hmeaning]
    rfl

end Regex

end KeyedSeries

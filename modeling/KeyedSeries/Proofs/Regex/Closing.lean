import KeyedSeries.Proofs.Regex.Progress

/-!
# What is put behind a pattern

A pattern that has to match a whole text is enclosed, and so a closing parenthesis and a sign for
the end of the text are put behind it before it is read. This file puts the readings of two texts
side by side, of which the second one is the first with this closing behind it.

The places that they come to answer to each other (`KeyedSeries.PatternCursor.Follows`): what is
left of the second text is what is left of the first, with the closing behind it. The one thing that
takes the closing in is a comment that is open at the end of the first text; then nothing is left of
either. **Two readings agree if what is given for the first text is given for the second one, at a
place that answers** (`KeyedSeries.PatternCursor.Agree`), and what is given for the second one alone
has gone into the closing. Blanks, runs of characters and numbers are read in this way: they end
where the closing begins.
-/

namespace KeyedSeries.PatternCursor

/-! ### Two texts -/

/-- What is put behind a pattern. -/
def closing : List Char := [')', '$']

/-- A character before the closing, if it is none of it, is one of the first text. -/
theorem exists_eq_cons {c : Char} {l m : List Char} (h : c :: m = l ++ closing)
    (hc : c ≠ ')') : ∃ l', l = c :: l' ∧ m = l' ++ closing := by
  cases l with
  | nil =>
    cases h
    exact absurd rfl hc
  | cons d l =>
    cases h
    exact ⟨l, rfl, rfl⟩

/-- The places of two texts that answer to each other: what is left of the second is what is left
of the first, with the closing behind it; or nothing is left of either, because a comment has taken
the closing in. -/
inductive Follows : PatternCursor → PatternCursor → Prop
  /-- Before a character of the first text. -/
  | char (c : Char) (rest : List Char) (skips : Bool) (names : List String) :
    Follows ⟨c :: rest, skips, names⟩ ⟨c :: (rest ++ closing), skips, names⟩
  /-- At the end of the first text. -/
  | before (skips : Bool) (names : List String) :
    Follows ⟨[], skips, names⟩ ⟨closing, skips, names⟩
  /-- At the ends of both. -/
  | swallowed (skips : Bool) (names : List String) :
    Follows ⟨[], skips, names⟩ ⟨[], skips, names⟩

/-- What a reader gives, with the place where it stops. -/
class Outcome (α : Type) where
  /-- The place. -/
  place : α → PatternCursor
  /-- The same is given, and the places answer to each other. -/
  Follows : α → α → Prop

instance : Outcome PatternCursor := ⟨id, Follows⟩

/-- Where blanks are not skipped, only what is left counts. -/
instance : Outcome (List Char) := ⟨fun l => ⟨l, false, []⟩, fun l l' => l' = l ++ closing⟩

instance {β α : Type} [Outcome α] : Outcome (β × α) :=
  ⟨fun x => Outcome.place x.2, fun x y => x.1 = y.1 ∧ Outcome.Follows x.2 y.2⟩

/-- Two texts are read alike: what is given for the first text is given for the second; and what is
given for the second alone satisfies `past`. -/
structure Agree {α : Type} [Outcome α] (past : α → Prop) (a b : Option α) : Prop where
  /-- What is given for the first text. -/
  given : ∀ x, a = some x → ∃ y, b = some y ∧ Outcome.Follows x y
  /-- What is given for the second text alone. -/
  alone : a = none → ∀ y, b = some y → past y

/-- Nothing is given for the second text only. -/
def Never {α : Type} (_ : α) : Prop := False

/-- No more than the closing is left. -/
def AtClosing {α : Type} [Outcome α] (y : α) : Prop := (Outcome.place y).rest <:+ closing

/-- A part of the closing was read. -/
def Past {α : Type} [Outcome α] (y : α) : Prop := (Outcome.place y).rest <:+ closing.tail

theorem atClosing_of_eq {y : PatternCursor} (h : y.rest = closing) : AtClosing y := by
  rw [AtClosing, ← h]
  exact List.suffix_refl _

section Agree

variable {α β : Type} [Outcome α] [Outcome β] {past : α → Prop} {past' : β → Prop}
  {a b : Option α}

theorem Agree.of_follows {x y : α} (h : Outcome.Follows x y) : Agree past (some x) (some y) where
  given := by
    rintro _ ⟨⟩
    exact ⟨y, rfl, h⟩
  alone := nofun

theorem Agree.of_none (h : ∀ y, b = some y → past y) : Agree past none b := ⟨nofun, fun _ => h⟩

theorem Agree.none_none : Agree past (none : Option α) none := .of_none nofun

theorem Agree.mono {past₂ : α → Prop} (h : Agree past a b) (hpast : ∀ y, past y → past₂ y) :
    Agree past₂ a b := ⟨h.given, fun ha y hb => hpast y (h.alone ha y hb)⟩

/-- One reader after the other. -/
theorem Agree.bind {f g : α → Option β} (h : Agree past a b)
    (hfollows : ∀ x y, a = some x → b = some y → Outcome.Follows x y → Agree past' (f x) (g y))
    (hpast : ∀ y, b = some y → past y → ∀ z, g y = some z → past' z) :
    Agree past' (a.bind f) (b.bind g) := by
  cases ha : a with
  | none =>
    refine .of_none fun z hz => ?_
    obtain ⟨y, hy, hz⟩ := Option.bind_eq_some_iff.mp hz
    exact hpast y hy (h.alone ha y hy) z hz
  | some x =>
    obtain ⟨y, hy, hxy⟩ := h.given x ha
    rw [hy]
    exact hfollows x y ha hy hxy

theorem Agree.map {f g : α → β} (h : Agree past a b)
    (hfollows : ∀ x y, Outcome.Follows x y → Outcome.Follows (f x) (g y))
    (hpast : ∀ y, past y → past' (g y)) : Agree past' (a.map f) (b.map g) := by
  rw [Option.map_eq_bind, Option.map_eq_bind]
  refine h.bind (fun x y _ _ hxy => .of_follows (hfollows x y hxy)) ?_
  rintro y - hy _ ⟨⟩
  exact hpast y hy

/-- A reader that goes forward, after one that went no further than the closing. -/
theorem Agree.bind_of_suffix {f g : α → Option β} (h : Agree AtClosing a b)
    (hfollows : ∀ x y, a = some x → b = some y → Outcome.Follows x y →
      Agree AtClosing (f x) (g y))
    (hsuffix : ∀ y z, g y = some z → (Outcome.place z).rest <:+ (Outcome.place y).rest) :
    Agree AtClosing (a.bind f) (b.bind g) :=
  h.bind hfollows fun y _ hy z hz => (hsuffix y z hz).trans hy

end Agree

variable {cur cur' : PatternCursor} {skips : Bool} {names : List String} {n n' : Nat}

/-! ### Blanks -/

/-- The same place of both texts. -/
theorem follows_append (rest : List Char) (skips : Bool) (names : List String) :
    Follows ⟨rest, skips, names⟩ ⟨rest ++ closing, skips, names⟩ := by
  cases rest with
  | nil => exact .before skips names
  | cons c rest => exact .char c rest skips names

theorem follows_dropBlanks (inComment : Bool) (l : List Char) :
    Follows ⟨dropBlanks inComment l, skips, names⟩
      ⟨dropBlanks inComment (l ++ closing), skips, names⟩ := by
  induction l generalizing inComment with
  | nil =>
    cases inComment with
    | true => exact .swallowed skips names
    | false => exact .before skips names
  | cons c rest ih =>
    rw [List.cons_append, dropBlanks, dropBlanks]
    split
    · exact ih _
    · split
      · exact ih _
      · split
        · exact ih _
        · exact .char c rest skips names

theorem Follows.skip (h : Follows cur cur') : Follows cur.skip cur'.skip := by
  cases h with
  | swallowed skips names =>
    cases skips <;> exact .swallowed _ _
  | before skips names =>
    cases skips <;> exact .before _ _
  | char c rest skips names =>
    cases skips with
    | false => exact .char c rest false names
    | true => exact follows_dropBlanks false (c :: rest)

theorem Follows.skips_eq (h : Follows cur cur') : cur'.skips = cur.skips := by
  cases h <;> rfl

theorem Follows.names_eq (h : Follows cur cur') : cur'.names = cur.names := by
  cases h <;> rfl

theorem Follows.with_skips (h : Follows cur cur') (skips : Bool) :
    Follows { cur with skips := skips } { cur' with skips := skips } := by
  cases h with
  | char c rest _ names => exact .char c rest skips names
  | before _ names => exact .before skips names
  | swallowed _ names => exact .swallowed skips names

theorem follows_moveTo (l l' rest : List Char) :
    Follows (moveTo ⟨l, skips, names⟩ rest) (moveTo ⟨l', skips, names⟩ (rest ++ closing)) :=
  (follows_append rest skips names).skip

theorem agree_moveTo? (l l' rest : List Char) :
    Agree (fun next => next.rest = closing) (moveTo? ⟨l, skips, names⟩ rest)
      (moveTo? ⟨l', skips, names⟩ (rest ++ closing)) := by
  have h := @follows_moveTo skips names l l' rest
  unfold moveTo?
  generalize moveTo ⟨l, skips, names⟩ rest = next at h ⊢
  generalize moveTo ⟨l', skips, names⟩ (rest ++ closing) = next' at h ⊢
  cases h with
  | char c rest skips names => exact .of_follows (.char c rest skips names)
  | before skips names =>
    refine .of_none ?_
    rintro _ ⟨⟩
    rfl
  | swallowed => exact .none_none

theorem agree_moveTo?_rest (h : Follows cur cur') :
    Agree (fun next => next.rest = closing) (cur.moveTo? cur.rest) (cur'.moveTo? cur'.rest) := by
  cases h with
  | char c rest skips names => exact agree_moveTo? _ _ (c :: rest)
  | before skips names => exact agree_moveTo? _ _ []
  | swallowed skips names => cases skips <;> exact .none_none

/-! ### Runs of characters and numbers -/

theorem readWhile_nil (p : Char → Bool) (n : Nat) (taken : List Char) :
    readWhile p n ⟨[], skips, names⟩ taken = (taken.reverse, ⟨[], skips, names⟩) := by
  cases n <;> rfl

theorem readWhile_of_not {p : Char → Bool} {c : Char} (hc : p c = false) (n : Nat)
    (rest taken : List Char) :
    readWhile p n ⟨c :: rest, skips, names⟩ taken = (taken.reverse, ⟨c :: rest, skips, names⟩) := by
  cases n with
  | zero => rfl
  | succ n => simp [readWhile, hc]

theorem follows_readWhile_of_nil {p : Char → Bool} (hp : p ')' = false) (h : Follows cur cur')
    (hnil : cur.rest = []) (taken : List Char) :
    Outcome.Follows (readWhile p n cur taken) (readWhile p n' cur' taken) := by
  cases h with
  | char => cases hnil
  | before skips names =>
    rw [readWhile_nil, closing, readWhile_of_not hp]
    exact ⟨rfl, .before skips names⟩
  | swallowed skips names =>
    rw [readWhile_nil, readWhile_nil]
    exact ⟨rfl, .swallowed skips names⟩

/-- A run of characters that the closing does not go on with. -/
theorem follows_readWhile {p : Char → Bool} (hp : p ')' = false) (h : Follows cur cur')
    (hn : cur.rest.length ≤ n) (hn' : cur'.rest.length ≤ n') (taken : List Char) :
    Outcome.Follows (readWhile p n cur taken) (readWhile p n' cur' taken) := by
  induction n generalizing cur cur' n' taken with
  | zero =>
    exact follows_readWhile_of_nil hp h (List.eq_nil_of_length_eq_zero (Nat.le_zero.mp hn)) taken
  | succ n ih =>
    cases h with
    | char c rest skips names =>
      obtain ⟨n', rfl⟩ := Nat.exists_eq_add_one.mpr (Nat.zero_lt_of_lt hn')
      by_cases hc : p c = true
      · simp only [readWhile, hc, if_true]
        exact ih (follows_moveTo _ _ rest)
          ((moveTo_suffix _ rest).length_le.trans (Nat.le_of_succ_le_succ hn))
          ((moveTo_suffix _ _).length_le.trans (Nat.le_of_succ_le_succ hn')) _
      · rw [Bool.not_eq_true] at hc
        rw [readWhile_of_not hc, readWhile_of_not hc]
        exact ⟨rfl, .char c rest skips names⟩
    | before skips names => exact follows_readWhile_of_nil hp (.before skips names) rfl taken
    | swallowed skips names => exact follows_readWhile_of_nil hp (.swallowed skips names) rfl taken

theorem dropWhile_append_closing {p : Char → Bool} (hp : p ')' = false) (l : List Char) :
    (l ++ closing).dropWhile p = l.dropWhile p ++ closing := by
  induction l with
  | nil => simp [closing, hp]
  | cons c l ih =>
    rw [List.cons_append, List.dropWhile_cons, List.dropWhile_cons, ih]
    split <;> rfl

theorem Follows.dropSpaces (h : Follows cur cur') : Follows cur.dropSpaces cur'.dropSpaces := by
  cases h with
  | char c rest skips names =>
    have hdrop := dropWhile_append_closing (show Unicode.isBlank ')' = false by decide) (c :: rest)
    have h := follows_append ((c :: rest).dropWhile Unicode.isBlank) skips names
    rwa [← hdrop] at h
  | before skips names => exact .before skips names
  | swallowed skips names => exact .swallowed skips names

theorem follows_readCount (h : Follows cur cur') :
    Outcome.Follows (readCount cur) (readCount cur') := by
  unfold readCount
  have hdigits :=
    follows_readWhile (p := isDigit) rfl h.dropSpaces (Nat.le_refl _) (Nat.le_refl _) []
  rw [← readDigits_eq, ← readDigits_eq] at hdigits
  obtain ⟨hvalue, hplace⟩ := hdigits
  dsimp only
  rw [hvalue]
  exact ⟨rfl, hplace.dropSpaces.skip⟩

/-- There is no number in the closing. -/
theorem readCount_of_closing (h : cur.rest = closing) : readCount cur = (none, cur) := by
  obtain ⟨l, skips, names⟩ := cur
  cases h
  cases skips <;> rfl

end KeyedSeries.PatternCursor

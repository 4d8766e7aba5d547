import KeyedSeries.Proofs.Regex.Closing

/-!
# Escapes and classes before the closing

The readings of escapes and classes agree for a text and for the same text with the closing behind
it. An escape at the end of the text may go on into the closing: a property that has no brace takes
its character from there. There is one more way: `\b` before a brace that is not closed is read as a
boundary of a word only if something follows the brace
(`KeyedSeries.PatternCursor.agree_readBoundary`).

**A class is never closed by the closing** (`KeyedSeries.PatternCursor.agree_readClass`), which has
no bracket: what is no class in the first text is none in the second.
-/

namespace KeyedSeries.PatternCursor

variable {cur cur' : PatternCursor} {skips : Bool} {names : List String} {n n' : Nat}

/-! ### Characters given by their number -/

theorem agree_readHex (h : Follows cur cur') (digits : List Char) :
    Agree Never (readHex n cur digits) (readHex n cur' digits) := by
  induction n generalizing cur cur' digits with
  | zero =>
    rw [readHex, readHex]
    cases charOf? (CharSet.hexNumber digits.reverse) with
    | none => exact .none_none
    | some c => exact .of_follows ⟨rfl, h⟩
  | succ n ih =>
    cases h with
    | char c rest skips names =>
      by_cases hc : (CharSet.hexValue? c).isSome = true
      · simp only [readHex, hc, if_true]
        exact ih (follows_moveTo _ _ rest) _
      · simp only [readHex, hc]
        exact .none_none
    | before | swallowed => exact .none_none

theorem readBracedHex_nil (n : Nat) (digits : List Char) :
    readBracedHex n ⟨[], skips, names⟩ digits = none := by
  cases n <;> rfl

theorem readBracedHex_closing (n : Nat) (digits : List Char) :
    readBracedHex n ⟨closing, skips, names⟩ digits = none := by
  cases n <;> rfl

theorem agree_readBracedHex (h : Follows cur cur') (hn : cur.rest.length < n)
    (hn' : cur'.rest.length < n') (digits : List Char) :
    Agree Never (readBracedHex n cur digits) (readBracedHex n' cur' digits) := by
  induction n generalizing cur cur' n' digits with
  | zero => cases hn
  | succ n ih =>
    cases h with
    | char c rest skips names =>
      obtain ⟨n', rfl⟩ := Nat.exists_eq_add_one.mpr (Nat.zero_lt_of_lt hn')
      by_cases hbrace : c = '\x7d'
      · subst hbrace
        simp only [readBracedHex]
        cases digits.isEmpty with
        | true => exact .none_none
        | false =>
          cases charOf? (CharSet.hexNumber digits.reverse) with
          | none => exact .none_none
          | some c => exact .of_follows ⟨rfl, follows_moveTo _ _ rest⟩
      · by_cases hc : (CharSet.hexValue? c).isSome = true
        · simp only [readBracedHex, hc, if_true]
          exact ih (follows_moveTo _ _ rest)
            ((moveTo_suffix _ rest).length_le.trans_lt (Nat.lt_of_succ_lt_succ hn))
            ((moveTo_suffix _ _).length_le.trans_lt (Nat.lt_of_succ_lt_succ hn')) _
        · simp only [readBracedHex, hc]
          exact .none_none
    | before skips names =>
      rw [readBracedHex_nil, readBracedHex_closing]
      exact .none_none
    | swallowed skips names =>
      rw [readBracedHex_nil, readBracedHex_nil]
      exact .none_none

theorem agree_readHexChar (h : Follows cur cur') (count : Nat) :
    Agree Never (readHexChar count cur) (readHexChar count cur') := by
  have hplain : Agree Never
      ((readHex count cur []).bind fun x => some (WrittenChar.mk x.1 (count == 2), x.2))
      ((readHex count cur' []).bind fun x => some (WrittenChar.mk x.1 (count == 2), x.2)) := by
    refine (agree_readHex h []).bind ?_ nofun
    rintro ⟨c, next⟩ ⟨_, next'⟩ - - ⟨rfl, hnext⟩
    exact .of_follows ⟨rfl, hnext⟩
  cases h with
  | char c rest skips names =>
    by_cases hbrace : c = '\x7b'
    · subst hbrace
      refine (agree_readBracedHex (follows_moveTo _ _ rest) ?_ ?_ []).bind ?_ nofun
      · exact Nat.lt_succ_of_le (moveTo_suffix _ rest).length_le
      · exact Nat.lt_succ_of_le (moveTo_suffix _ _).length_le
      · rintro ⟨c, next⟩ ⟨_, next'⟩ - - ⟨rfl, hnext⟩
        exact .of_follows ⟨rfl, hnext⟩
    · rw [readHexChar_of_ne hbrace, readHexChar_of_ne hbrace]
      exact hplain
  | before | swallowed => exact hplain

/-! ### Properties -/

/-- A brace that is not closed. -/
theorem readBraced_of_notMem (h : '\x7d' ∉ cur.rest) (name : List Char) :
    readBraced n cur name = none := by
  induction n generalizing cur name with
  | zero => rfl
  | succ n ih =>
    rw [readBraced]
    split
    · next rest hrest => simp [hrest] at h
    · next c rest _ hrest =>
      refine ih (fun hmem => h ?_) _
      rw [hrest]
      exact List.mem_cons_of_mem c ((moveTo_suffix cur rest).subset hmem)
    · rfl

theorem agree_readBraced (h : Follows cur cur') (hn : cur.rest.length < n)
    (hn' : cur'.rest.length < n') (name : List Char) :
    Agree Never (readBraced n cur name) (readBraced n' cur' name) := by
  induction n generalizing cur cur' n' name with
  | zero => cases hn
  | succ n ih =>
    cases h with
    | char c rest skips names =>
      obtain ⟨n', rfl⟩ := Nat.exists_eq_add_one.mpr (Nat.zero_lt_of_lt hn')
      by_cases hbrace : c = '\x7d'
      · subst hbrace
        exact .of_follows ⟨rfl, follows_append rest skips names⟩
      · simp only [readBraced]
        exact ih (follows_moveTo _ _ rest)
          ((moveTo_suffix _ rest).length_le.trans_lt (Nat.lt_of_succ_lt_succ hn))
          ((moveTo_suffix _ _).length_le.trans_lt (Nat.lt_of_succ_lt_succ hn')) _
    | before skips names =>
      rw [readBraced_of_notMem (by simp), readBraced_of_notMem (by simp [closing])]
      exact .none_none
    | swallowed skips names =>
      rw [readBraced_of_notMem (by simp), readBraced_of_notMem (by simp)]
      exact .none_none

theorem agree_readProperty (h : Follows cur cur') (negated : Bool) :
    Agree Past (readProperty negated cur) (readProperty negated cur') := by
  cases h with
  | char c rest skips names =>
    by_cases hbrace : c = '\x7b'
    · subst hbrace
      refine (agree_readBraced (follows_moveTo _ _ rest) ?_ ?_ []).bind ?_ nofun
      · exact Nat.lt_succ_of_le (moveTo_suffix _ rest).length_le
      · exact Nat.lt_succ_of_le (moveTo_suffix _ _).length_le
      · rintro ⟨name, next⟩ ⟨_, next'⟩ - - ⟨rfl, hnext⟩
        exact .of_follows ⟨rfl, rfl, hnext⟩
    · by_cases hslash : c = '\\'
      · subst hslash
        exact .none_none
      · simp only [readProperty]
        exact .of_follows ⟨rfl, rfl, follows_moveTo _ _ rest⟩
  | before skips names => exact .of_none fun y hy => readProperty_suffix_tail hy
  | swallowed => exact .none_none

/-! ### Escapes -/

/-- A boundary of a word before a brace that would have to be closed. -/
def Unclosed (cur : PatternCursor) : Prop :=
  ∃ rest, cur.rest = '\x7b' :: rest ∧ (cur.moveTo rest).rest = closing

theorem agree_readBoundaryEnd (h : Follows cur cur') (name : List Char) :
    Agree Never (readBoundaryEnd name cur) (readBoundaryEnd name cur') := by
  cases h with
  | char c rest skips names =>
    by_cases hbrace : c = '\x7d'
    · subst hbrace
      simp only [readBoundaryEnd]
      cases boundaryNamed? name with
      | none => exact .none_none
      | some a => exact .of_follows ⟨rfl, follows_append rest skips names⟩
    · have hnone (l : List Char) : readBoundaryEnd name ⟨c :: l, skips, names⟩ = none := by
        simp [readBoundaryEnd, hbrace]
      rw [hnone, hnone]
      exact .none_none
  | before | swallowed => exact .none_none

theorem agree_readBoundary (h : Follows cur cur') :
    Agree (fun y => y.1 = .boundary ∧ Unclosed y.2) (readBoundary cur) (readBoundary cur') := by
  cases h with
  | char c rest skips names =>
    by_cases hbrace : c = '\x7b'
    · subst hbrace
      rw [readBoundary_brace, readBoundary_brace]
      refine (agree_moveTo? _ _ rest).bind ?_ ?_
      · intro inner inner' hinner _ hfollows
        cases hfollows with
        | char c rest' skips' names' =>
          rw [List.head?_cons, List.head?_cons, Option.bind_some, Option.bind_some]
          split
          · rw [readBoundaryName_eq, readBoundaryName_eq]
            obtain ⟨hname, hplace⟩ := follows_readWhile (p := isBoundaryChar) rfl
              (.char c rest' skips' names') (Nat.le_refl _) (Nat.le_refl _) []
            rw [hname]
            exact (agree_readBoundaryEnd hplace _).mono nofun
          · exact .of_follows ⟨rfl, .char _ _ _ _⟩
        | before | swallowed => exact absurd rfl (rest_ne_nil_of_moveTo? hinner)
      · intro inner' hinner hclosing y hy
        rw [hclosing] at hy
        cases hy
        obtain ⟨-, rfl⟩ := moveTo?_eq_some_iff.mp hinner
        exact ⟨rfl, _, rfl, hclosing⟩
    · rw [readBoundary_of_ne, readBoundary_of_ne]
      · exact .of_follows ⟨rfl, .char c rest skips names⟩
      · rintro _ ⟨⟩
        exact hbrace rfl
      · rintro _ ⟨⟩
        exact hbrace rfl
  | before skips names => exact .of_follows ⟨rfl, .before skips names⟩
  | swallowed skips names => exact .of_follows ⟨rfl, .swallowed skips names⟩

/-- What an escape that the closing completes can be. -/
def PastEscape (y : Escape × PatternCursor) : Prop :=
  Past y ∨ y.1 = .anchor .boundary ∧ Unclosed y.2

theorem agree_readEscape (h : Follows cur cur') :
    Agree PastEscape (readEscape cur) (readEscape cur') := by
  cases h with
  | char c rest skips names =>
    rw [readEscape_cons, readEscape_cons]
    cases hkind : escapeKind c with
    | hex count =>
      refine (agree_moveTo? _ _ rest).bind ?_ ?_
      · intro inner inner' _ _ hinner
        refine (agree_readHexChar hinner count).bind ?_ nofun
        rintro ⟨w, next⟩ ⟨_, next'⟩ - - ⟨rfl, hnext⟩
        exact .of_follows ⟨rfl, hnext⟩
      · intro inner' _ hclosing y hy
        obtain ⟨⟨w, next'⟩, hread, hresult⟩ := Option.bind_eq_some_iff.mp hy
        cases hresult
        have hnext := readHexChar_suffix_tail (pos_of_escapeKind hkind) hread
        rw [hclosing] at hnext
        exact .inl hnext
    | property negated =>
      refine (agree_moveTo? _ _ rest).bind ?_ ?_
      · intro inner inner' _ _ hinner
        refine (agree_readProperty hinner negated).bind ?_ ?_
        · rintro ⟨opposite, q, next⟩ ⟨_, _, next'⟩ - - ⟨rfl, rfl, hnext⟩
          exact .of_follows ⟨rfl, hnext⟩
        · rintro ⟨opposite, q, next'⟩ - hpast y ⟨⟩
          exact .inl hpast
      · intro inner' _ hclosing y hy
        obtain ⟨⟨opposite, q, next'⟩, hread, hresult⟩ := Option.bind_eq_some_iff.mp hy
        cases hresult
        have hnext := readProperty_suffix_tail hread
        rw [hclosing] at hnext
        exact .inl hnext
    | boundary =>
      refine (agree_readBoundary (follows_append rest skips names)).bind ?_ ?_
      · rintro ⟨a, next⟩ ⟨_, next'⟩ - - ⟨rfl, hnext⟩
        exact .of_follows ⟨rfl, hnext⟩
      · rintro ⟨a, next'⟩ - ⟨rfl, hunclosed⟩ y ⟨⟩
        exact .inr ⟨rfl, hunclosed⟩
    | alone e? =>
      cases e? with
      | none => exact .none_none
      | some e => exact .of_follows ⟨rfl, follows_append rest skips names⟩
  | before skips names => exact .of_none fun y hy => .inl (readEscape_suffix_tail hy)
  | swallowed => exact .none_none

/-! ### Classes -/

theorem agree_readClassItem (h : Follows cur cur') :
    Agree PastEscape (readClassItem cur) (readClassItem cur') := by
  cases h with
  | char c rest skips names =>
    by_cases hslash : c = '\\'
    · subst hslash
      exact agree_readEscape (follows_append rest skips names)
    · have hitem (l : List Char) : readClassItem ⟨c :: l, skips, names⟩ =
          some (.char ⟨c, false⟩, ⟨l, skips, names⟩) := by
        simp [readClassItem]
      rw [hitem, hitem]
      exact .of_follows ⟨rfl, follows_append rest skips names⟩
  | before skips names => exact .of_none fun y hy => .inl (readClassItem_suffix_tail hy)
  | swallowed => exact .none_none

/-- Nothing is skipped before a brace. -/
theorem skip_brace (rest : List Char) (skips : Bool) (names : List String) :
    skip ⟨'\x7b' :: rest, skips, names⟩ = ⟨'\x7b' :: rest, skips, names⟩ := by
  cases skips <;> rfl

theorem agree_single? {past : WrittenClass × PatternCursor → Prop} (h : Follows cur cur')
    (first : Escape) : Agree past (single? first cur) (single? first cur') := by
  unfold single?
  cases first.toClass? with
  | none => exact .none_none
  | some c => exact .of_follows ⟨rfl, h⟩

theorem agree_rangeOf? (h : Follows cur cur') (first second : Escape) :
    Agree AtClosing (rangeOf? first second cur) (rangeOf? first second cur') := by
  unfold rangeOf?
  split
  · next a b =>
    by_cases hle : a.char ≤ b.char
    · rw [if_pos hle, if_pos hle]
      exact .of_follows ⟨rfl, h⟩
    · rw [if_neg hle, if_neg hle]
      exact .none_none
  · exact .none_none

theorem endsRange_cons (c : Char) (l : List Char) :
    endsRange (c :: l) = (c == ']' || c == '-') := by
  unfold endsRange
  split <;> simp_all

theorem endsRange_of_follows (h : Follows cur cur') :
    endsRange cur'.rest = endsRange cur.rest := by
  cases h with
  | char c rest skips names => rw [endsRange_cons, endsRange_cons]
  | before | swallowed => rfl

theorem agree_readRangeEnd (h : Follows cur cur') (first : Escape) :
    Agree AtClosing (readRangeEnd first cur) (readRangeEnd first cur') := by
  cases h with
  | char c rest skips names =>
    by_cases hdash : c = '-'
    · subst hdash
      have hends := endsRange_of_follows
        (@follows_moveTo skips names ('-' :: rest) ('-' :: (rest ++ closing)) rest)
      simp only [readRangeEnd]
      rw [hends]
      split
      · exact agree_single? (.char _ _ _ _) first
      · refine (agree_moveTo? _ _ rest).bind ?_ ?_
        · intro inner inner' _ _ hinner
          refine (agree_readClassItem hinner).bind ?_ ?_
          · rintro ⟨second, last⟩ ⟨_, last'⟩ - - ⟨rfl, hlast⟩
            exact agree_rangeOf? hlast first second
          · rintro ⟨second, last⟩ - hpast z hz
            rcases hpast with hpast | ⟨rfl, -⟩
            · exact (rangeOf?_suffix hz).trans (suffix_of_tail hpast (List.suffix_refl _))
            · cases first <;> cases hz
        · intro inner' _ hclosing z hz
          obtain ⟨⟨second, last⟩, hsecond, hz⟩ := Option.bind_eq_some_iff.mp hz
          have hlast := readClassItem_suffix_tail hsecond
          rw [hclosing] at hlast
          exact (rangeOf?_suffix hz).trans (suffix_of_tail hlast (List.suffix_refl _))
    · have hsingle (l : List Char) : readRangeEnd first ⟨c :: l, skips, names⟩ =
          single? first ⟨c :: l, skips, names⟩ := by
        refine readRangeEnd_of_ne (List.cons_ne_nil _ _) ?_ first
        rintro _ ⟨⟩
        exact hdash rfl
      rw [hsingle, hsingle]
      exact agree_single? (.char _ _ _ _) first
  | before skips names => exact .of_none fun z hz => readRangeEnd_suffix hz
  | swallowed => exact .none_none

theorem agree_readClassRange (h : Follows cur cur') :
    Agree AtClosing (readClassRange cur) (readClassRange cur') := by
  rw [readClassRange_eq, readClassRange_eq]
  refine (agree_readClassItem h).bind ?_ ?_
  · rintro ⟨first, next⟩ ⟨_, next'⟩ - - ⟨rfl, hnext⟩
    exact agree_readRangeEnd hnext.skip first
  · rintro ⟨first, next⟩ - hpast z hz
    rcases hpast with hpast | ⟨rfl, rest, hrest, -⟩
    · exact (readRangeEnd_suffix hz).trans <| (skip_suffix next).trans <|
        suffix_of_tail hpast (List.suffix_refl _)
    · obtain ⟨l, skips, names⟩ := next
      cases hrest
      dsimp only at hz
      rw [skip_brace] at hz
      cases hz

theorem readLeadingDashes_of_ne {c : Char} (hc : c ≠ '-') (n : Nat) (l : List Char)
    (items : List WrittenClass) :
    readLeadingDashes (n + 1) ⟨c :: l, skips, names⟩ items =
      some (items, ⟨c :: l, skips, names⟩) := by
  rw [readLeadingDashes]
  split
  · next hrest =>
    cases hrest
    exact absurd rfl hc
  · rfl

theorem agree_readLeadingDashes {n n' : Nat} (h : Follows cur cur') (hn : cur.rest.length < n)
    (hn' : cur'.rest.length < n') (items : List WrittenClass) :
    Agree AtClosing (readLeadingDashes n cur items) (readLeadingDashes n' cur' items) := by
  induction n generalizing cur cur' n' items with
  | zero => cases hn
  | succ n ih =>
    obtain ⟨n', rfl⟩ := Nat.exists_eq_add_one.mpr (Nat.zero_lt_of_lt hn')
    cases h with
    | char c rest skips names =>
      by_cases hdash : c = '-'
      · subst hdash
        simp only [readLeadingDashes]
        refine (agree_moveTo? _ _ rest).bind ?_ ?_
        · intro inner inner' hinner hinner' hfollows
          exact ih hfollows
            ((moveTo?_suffix hinner).length_le.trans_lt (Nat.lt_of_succ_lt_succ hn))
            ((moveTo?_suffix hinner').length_le.trans_lt (Nat.lt_of_succ_lt_succ hn')) _
        · intro inner' _ hclosing y hy
          have hrest := readLeadingDashes_suffix hy
          rw [hclosing] at hrest
          exact hrest
      · rw [readLeadingDashes_of_ne hdash, readLeadingDashes_of_ne hdash]
        exact .of_follows ⟨rfl, .char c rest skips names⟩
    | before skips names => exact .of_follows ⟨rfl, .before skips names⟩
    | swallowed skips names => exact .of_follows ⟨rfl, .swallowed skips names⟩

/-- A reader goes on behind a character. -/
theorem agree_map_moveTo? {β : Type} (x : β) (l l' rest : List Char) :
    Agree AtClosing ((moveTo? ⟨l, skips, names⟩ rest).map fun next => (x, next))
      ((moveTo? ⟨l', skips, names⟩ (rest ++ closing)).map fun next => (x, next)) :=
  (agree_moveTo? l l' rest).map (fun _ _ hnext => ⟨rfl, hnext⟩) fun _ => atClosing_of_eq

theorem agree_readNegation (h : Follows cur cur') :
    Agree AtClosing (readNegation cur) (readNegation cur') := by
  cases h with
  | char c rest skips names =>
    by_cases hsign : c = '^'
    · subst hsign
      simp only [readNegation]
      exact agree_map_moveTo? true _ _ rest
    · have hplain (l : List Char) : readNegation ⟨c :: l, skips, names⟩ =
          some (false, ⟨c :: l, skips, names⟩) := by
        refine readNegation_of_ne ?_
        rintro _ ⟨⟩
        exact hsign rfl
      rw [hplain, hplain]
      exact .of_follows ⟨rfl, .char _ _ _ _⟩
  | before skips names => exact .of_follows ⟨rfl, .before skips names⟩
  | swallowed skips names => exact .of_follows ⟨rfl, .swallowed skips names⟩

theorem agree_readFirstBracket (h : Follows cur cur') (items : List WrittenClass) :
    Agree AtClosing (readFirstBracket items cur) (readFirstBracket items cur') := by
  cases h with
  | char c rest skips names =>
    by_cases hbracket : items = [] ∧ c = ']'
    · obtain ⟨rfl, rfl⟩ := hbracket
      simp only [readFirstBracket]
      exact agree_map_moveTo? _ _ _ rest
    · have hplain (l : List Char) : readFirstBracket items ⟨c :: l, skips, names⟩ =
          some (items, ⟨c :: l, skips, names⟩) := by
        unfold readFirstBracket
        split
        · next hrest =>
          cases hrest
          exact absurd ⟨rfl, rfl⟩ hbracket
        · rfl
      rw [hplain, hplain]
      exact .of_follows ⟨rfl, .char _ _ _ _⟩
  | before skips names => cases items <;> exact .of_follows ⟨rfl, .before skips names⟩
  | swallowed skips names => cases items <;> exact .of_follows ⟨rfl, .swallowed skips names⟩

theorem agree_readClassStart (h : Follows cur cur') :
    Agree AtClosing (readClassStart cur) (readClassStart cur') := by
  rw [readClassStart_eq, readClassStart_eq]
  have hstart : Agree AtClosing _ _ := (agree_moveTo?_rest h).mono fun _ => atClosing_of_eq
  refine hstart.bind_of_suffix (fun start start' _ _ hstart => ?_) ?_
  · refine (agree_readNegation hstart).bind_of_suffix ?_ ?_
    · rintro ⟨negated, sign⟩ ⟨_, sign'⟩ - - ⟨rfl, hsign⟩
      have hleading := agree_readLeadingDashes hsign (Nat.lt_succ_self _) (Nat.lt_succ_self _) []
      refine hleading.bind_of_suffix ?_ ?_
      · rintro ⟨items, dashes⟩ ⟨_, dashes'⟩ - - ⟨rfl, hdashes⟩
        refine (agree_readFirstBracket hdashes items).map ?_ fun y hy => hy
        rintro ⟨items', next⟩ ⟨_, next'⟩ ⟨rfl, hnext⟩
        exact ⟨rfl, rfl, hnext⟩
      · rintro ⟨items, dashes⟩ z hz
        obtain ⟨⟨_, next⟩, hbracket, rfl⟩ := Option.map_eq_some_iff.mp hz
        exact readFirstBracket_suffix hbracket
    · rintro ⟨negated, sign⟩ z hz
      obtain ⟨⟨items, dashes⟩, hdashes, hz⟩ := Option.bind_eq_some_iff.mp hz
      obtain ⟨⟨_, next⟩, hbracket, rfl⟩ := Option.map_eq_some_iff.mp hz
      exact (readFirstBracket_suffix hbracket).trans (readLeadingDashes_suffix hdashes)
  · intro start z hz
    obtain ⟨⟨negated, sign⟩, hsign, hz⟩ := Option.bind_eq_some_iff.mp hz
    obtain ⟨⟨items, dashes⟩, hdashes, hz⟩ := Option.bind_eq_some_iff.mp hz
    obtain ⟨⟨_, next⟩, hbracket, rfl⟩ := Option.map_eq_some_iff.mp hz
    exact (readFirstBracket_suffix hbracket).trans <|
      (readLeadingDashes_suffix hdashes).trans (readNegation_suffix hsign)

theorem nameNegation_append (l : List Char) :
    nameNegation (l ++ closing) = ((nameNegation l).1, (nameNegation l).2 ++ closing) := by
  cases l with
  | nil => rfl
  | cons c l =>
    by_cases hc : c = '^'
    · subst hc
      rfl
    · simp [nameNegation, hc]

theorem agree_readClassNameEnd (negated : Bool) (name l : List Char) :
    Agree Never (readClassNameEnd negated name skips names l)
      (readClassNameEnd negated name skips names (l ++ closing)) := by
  fun_cases readClassNameEnd negated name skips names l with
  | case1 rest =>
    rw [List.cons_append, List.cons_append, readClassNameEnd]
    cases NamedClass.ofName? (String.ofList name) with
    | none => exact .none_none
    | some k => exact .of_follows ⟨rfl, follows_append rest skips names⟩
  | case2 l hne =>
    have hnone : readClassNameEnd negated name skips names (l ++ closing) = none := by
      unfold readClassNameEnd
      split
      · next rest hrest =>
        obtain ⟨l', rfl, hl'⟩ := exists_eq_cons hrest.symm (by decide)
        obtain ⟨l'', rfl, -⟩ := exists_eq_cons hl' (by decide)
        exact (hne l'' rfl).elim
      · rfl
    rw [hnone]
    exact .none_none

/-- The closing has no colon. -/
theorem agree_readClassName (negated : Bool) (l : List Char) :
    Agree Never (readClassName negated skips names l)
      (readClassName negated skips names (l ++ closing)) := by
  unfold readClassName
  rw [List.dropWhile_append, List.takeWhile_append]
  cases hdrop : l.dropWhile (· != ':') with
  | nil => exact .none_none
  | cons c rest =>
    have hshort : ¬(l.takeWhile (· != ':')).length = l.length := by
      intro hlength
      have htotal :=
        congrArg List.length (List.takeWhile_append_dropWhile (p := (· != ':')) (l := l))
      rw [List.length_append, hdrop, List.length_cons] at htotal
      omega
    rw [if_neg hshort]
    exact agree_readClassNameEnd negated _ (c :: rest)

theorem agree_readNamedClass? (h : Follows cur cur') :
    Agree Never (readNamedClass? cur) (readNamedClass? cur') := by
  cases h with
  | char c rest skips names =>
    by_cases hcolon : c = ':'
    · subst hcolon
      rw [readNamedClass?_colon, readNamedClass?_colon, nameNegation_append]
      exact agree_readClassName _ _
    · rw [readNamedClass?_of_ne hcolon, readNamedClass?_of_ne hcolon]
      exact .none_none
  | before skips names => exact .none_none
  | swallowed skips names => exact .none_none

theorem agree_readInnerClass (h : Follows cur cur') :
    Agree (fun y => y.1 ≠ .close ∧ AtClosing y) (readInnerClass cur) (readInnerClass cur') := by
  have hnamed := agree_readNamedClass? h
  unfold readInnerClass
  cases ha : readNamedClass? cur with
  | some x =>
    obtain ⟨⟨c, next'⟩, hb, rfl, hnext⟩ := hnamed.given x ha
    rw [hb]
    exact .of_follows ⟨rfl, hnext⟩
  | none =>
    have hb : readNamedClass? cur' = none := Option.eq_none_iff_forall_not_mem.mpr (hnamed.alone ha)
    rw [hb]
    refine (agree_readClassStart h).map ?_ fun y hy => ⟨nofun, hy⟩
    rintro ⟨negated, first, next⟩ ⟨_, _, next'⟩ ⟨rfl, rfl, hnext⟩
    exact ⟨rfl, hnext⟩

theorem classSign?_append (l : List Char) :
    classSign? (l ++ closing) =
      (classSign? l).map fun (piece, rest) => (piece, rest ++ closing) := by
  generalize hm : l ++ closing = m
  fun_cases classSign? m with
  | case1 rest =>
    obtain ⟨l', rfl, rfl⟩ := exists_eq_cons hm.symm (by decide)
    rfl
  | case2 rest | case3 rest | case4 rest =>
    obtain ⟨l', rfl, hl'⟩ := exists_eq_cons hm.symm (by decide)
    obtain ⟨l'', rfl, rfl⟩ := exists_eq_cons hl' (by decide)
    rfl
  | case5 m h1 h2 h3 h4 =>
    subst hm
    fun_cases classSign? l with
    | case1 rest => exact (h1 _ rfl).elim
    | case2 rest => exact (h2 _ rfl).elim
    | case3 rest => exact (h3 _ rfl).elim
    | case4 rest => exact (h4 _ rfl).elim
    | case5 => rfl

theorem agree_readClassPiece (h : Follows cur cur') :
    Agree (fun y => y.1 ≠ .close ∧ AtClosing y) (readClassPiece cur) (readClassPiece cur') := by
  have hrange : Agree (fun y => y.1 ≠ .close ∧ AtClosing y)
      ((readClassRange cur).map fun x => (ClassPiece.item x.1, x.2))
      ((readClassRange cur').map fun x => (ClassPiece.item x.1, x.2)) := by
    refine (agree_readClassRange h).map ?_ fun y hy => ⟨nofun, hy⟩
    rintro ⟨c, next⟩ ⟨_, next'⟩ ⟨rfl, hnext⟩
    exact ⟨rfl, hnext⟩
  cases h with
  | char c rest skips names =>
    by_cases hopen : c = '['
    · subst hopen
      exact agree_readInnerClass (follows_append rest skips names)
    · rw [readClassPiece_of_ne (by simpa using hopen), readClassPiece_of_ne (by simpa using hopen)]
      exact hrange
  | before | swallowed => exact hrange

theorem agree_nextClassPiece? (h : Follows cur cur') :
    Agree (fun y => y.1 ≠ .close ∧ AtClosing y) (nextClassPiece? cur) (nextClassPiece? cur') := by
  unfold nextClassPiece?
  have hskip := h.skip
  generalize cur.skip = start at hskip ⊢
  generalize cur'.skip = start' at hskip ⊢
  cases hskip with
  | char c rest skips names =>
    rw [← List.cons_append, classSign?_append]
    cases classSign? (c :: rest) with
    | none => exact agree_readClassPiece (.char c rest skips names)
    | some x => exact .of_follows ⟨rfl, follows_append x.2 skips names⟩
  | before skips names => exact agree_readClassPiece (.before skips names)
  | swallowed skips names => exact agree_readClassPiece (.swallowed skips names)

/-- Only a bracket closes a class. -/
theorem mem_of_nextClassPiece? {next : PatternCursor}
    (h : nextClassPiece? cur = some (.close, next)) : ']' ∈ cur.rest := by
  refine (skip_suffix cur).subset ?_
  unfold nextClassPiece? at h
  split at h
  · next piece rest hsign =>
    cases h
    unfold classSign? at hsign
    split at hsign <;> cases hsign
    next hrest =>
      rw [hrest]
      exact List.mem_cons_self
  · unfold readClassPiece readInnerClass at h
    repeat' split at h
    · cases h
    · obtain ⟨_, -, hresult⟩ := Option.map_eq_some_iff.mp h
      cases hresult
    · obtain ⟨_, -, hresult⟩ := Option.map_eq_some_iff.mp h
      cases hresult

/-- A class needs its closing bracket. -/
theorem readClassBody_of_notMem {n : Nat} {pending : PendingOp} {items : List WrittenClass}
    (h : ']' ∉ cur.rest) : readClassBody n cur pending items = none := by
  induction n generalizing cur pending items with
  | zero => rfl
  | succ n ih =>
    rw [readClassBody_succ]
    cases hpiece : nextClassPiece? cur with
    | none => rfl
    | some result =>
      obtain ⟨piece, next⟩ := result
      have hnext : ']' ∉ next.rest := fun hmem =>
        h (suffix_of_tail (nextClassPiece?_suffix_tail hpiece) (List.suffix_refl _) |>.subset hmem)
      cases piece with
      | close => exact absurd (mem_of_nextClassPiece? hpiece) h
      | operate k => exact ih hnext
      | item c => exact ih hnext
      | bracket negated first =>
        dsimp only [Option.bind_some]
        rw [ih hnext]
        rfl

theorem Follows.notMem_of_nil {c : Char} (hc : c ∉ closing) (h : Follows cur cur')
    (hnil : cur.rest = []) : c ∉ cur'.rest := by
  cases h with
  | char => cases hnil
  | before => exact hc
  | swallowed => exact List.not_mem_nil

/-- **Classes are read alike**, for the closing has no bracket. -/
theorem agree_readClassBody {n n' : Nat} (h : Follows cur cur') (hn : cur.rest.length ≤ n)
    (hn' : cur'.rest.length ≤ n') (pending : PendingOp) (items : List WrittenClass) :
    Agree Never (readClassBody n cur pending items) (readClassBody n' cur' pending items) := by
  induction n generalizing cur cur' n' pending items with
  | zero =>
    have hnil := List.eq_nil_of_length_eq_zero (Nat.le_zero.mp hn)
    rw [readClassBody_of_notMem (h.notMem_of_nil (by decide) hnil)]
    exact .none_none
  | succ n ih =>
    cases n' with
    | zero =>
      have hnil := List.eq_nil_of_length_eq_zero (Nat.le_zero.mp hn')
      have hnil' : cur.rest = [] := by cases h <;> first | rfl | cases hnil
      rw [readClassBody_of_notMem (by simp [hnil'])]
      exact .none_none
    | succ n' =>
      rw [readClassBody_succ, readClassBody_succ]
      refine (agree_nextClassPiece? h).bind ?_ ?_
      · rintro ⟨piece, next⟩ ⟨_, next'⟩ hpiece hpiece' ⟨rfl, hnext⟩
        have hle := length_le_of_suffix_tail (nextClassPiece?_suffix_tail hpiece) hn
        have hle' := length_le_of_suffix_tail (nextClassPiece?_suffix_tail hpiece') hn'
        cases piece with
        | close => exact .of_follows ⟨rfl, hnext⟩
        | operate k => exact ih hnext hle hle' _ _
        | item c => exact ih hnext hle hle' _ _
        | bracket negated first =>
          refine (ih hnext hle hle' none first).bind ?_ nofun
          rintro ⟨body, inner⟩ ⟨_, inner'⟩ hbody hbody' ⟨rfl, hinner⟩
          have hbody := suffix_of_tail (readClassBody_suffix_tail hbody) (List.suffix_refl _)
          have hbody' := suffix_of_tail (readClassBody_suffix_tail hbody') (List.suffix_refl _)
          exact ih hinner (hbody.length_le.trans hle) (hbody'.length_le.trans hle') _ _
      · rintro ⟨piece, next'⟩ - ⟨hclose, hclosing⟩ z hz
        have hnext : ']' ∉ next'.rest := fun hmem => absurd (hclosing.subset hmem) (by decide)
        cases piece with
        | close => exact hclose rfl
        | operate k | item c =>
          dsimp only at hz
          rw [readClassBody_of_notMem hnext] at hz
          cases hz
        | bracket negated first =>
          dsimp only at hz
          rw [readClassBody_of_notMem hnext] at hz
          cases hz

theorem agree_readClass (h : Follows cur cur') :
    Agree Never (readClass cur) (readClass cur') := by
  refine (agree_readClassStart h).bind ?_ ?_
  · rintro ⟨negated, items, next⟩ ⟨_, _, next'⟩ hstart hstart' ⟨rfl, rfl, hnext⟩
    refine (agree_readClassBody hnext ?_ ?_ none items).bind ?_ nofun
    · exact Nat.le_succ_of_le (readClassStart_suffix hstart).length_le
    · exact Nat.le_succ_of_le (readClassStart_suffix hstart').length_le
    · rintro ⟨body, last⟩ ⟨_, last'⟩ - - ⟨rfl, hlast⟩
      exact .of_follows ⟨rfl, hlast⟩
  · rintro ⟨negated, items, next'⟩ - hclosing z hz
    have hnext : ']' ∉ next'.rest := fun hmem => absurd (hclosing.subset hmem) (by decide)
    obtain ⟨_, hbody, -⟩ := Option.bind_eq_some_iff.mp hz
    rw [readClassBody_of_notMem hnext] at hbody
    cases hbody

end KeyedSeries.PatternCursor

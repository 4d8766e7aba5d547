import KeyedSeries.Proofs.Regex.ClosingItems

/-!
# Alternatives before the closing

**Alternatives are read alike with the closing behind them and without**
(`KeyedSeries.PatternCursor.agree_readAlternatives`): what they give for a text they give for the
text with the closing behind it as well; and where they give something for the second text alone,
they have read the parenthesis of the closing. The proof goes piece by piece
(`KeyedSeries.PatternCursor.agree_nextPiece?`). A repetition is never completed by the closing, and
a group that is open at the end of the text is closed by it.
-/

namespace KeyedSeries.PatternCursor

variable {cur cur' : PatternCursor} {skips : Bool} {names : List String} {n n' : Nat}

/-! ### Repetitions -/

theorem dropLazy_append (l : List Char) : dropLazy (l ++ closing) = dropLazy l ++ closing := by
  cases l with
  | nil => rfl
  | cons c l =>
    by_cases hc : c = '?'
    · subst hc
      rfl
    · have hplain (l : List Char) : dropLazy (c :: l) = c :: l := by
        unfold dropLazy
        split
        · next heq =>
          cases heq
          exact absurd rfl hc
        · rfl
      rw [List.cons_append, hplain, hplain, List.cons_append]

theorem Follows.dropLazy (h : Follows cur cur') :
    Follows { cur with rest := dropLazy cur.rest } { cur' with rest := dropLazy cur'.rest } := by
  cases h with
  | char c rest skips names =>
    have h := follows_append (PatternCursor.dropLazy (c :: rest)) skips names
    rwa [← dropLazy_append] at h
  | before skips names => exact .before skips names
  | swallowed skips names => exact .swallowed skips names

theorem agree_readMost (h : Follows cur cur') (least : Nat) :
    Agree Never (readMost least cur) (readMost least cur') := by
  have hcount : Agree Never
      ((readCount cur).1.join.map fun most => (least, some most, (readCount cur).2))
      ((readCount cur').1.join.map fun most => (least, some most, (readCount cur').2)) := by
    obtain ⟨hvalue, hplace⟩ := follows_readCount h
    rw [← hvalue]
    cases (readCount cur).1.join with
    | none => exact .none_none
    | some most => exact .of_follows ⟨rfl, rfl, hplace⟩
  cases h with
  | char c rest skips names =>
    by_cases hbrace : c = '\x7d'
    · subst hbrace
      exact .of_follows ⟨rfl, rfl, .char _ _ _ _⟩
    · rw [readMost_of_ne (by simpa using hbrace), readMost_of_ne (by simpa using hbrace)]
      exact hcount
  | before | swallowed => exact hcount

theorem agree_readUpperBound (h : Follows cur cur') (first : Option (Option Nat)) :
    Agree Never (readUpperBound first cur) (readUpperBound first cur') := by
  have hplain : Agree Never (first.join.map fun n => (n, some n, cur))
      (first.join.map fun n => (n, some n, cur')) := by
    cases first.join with
    | none => exact .none_none
    | some n => exact .of_follows ⟨rfl, rfl, h⟩
  cases h with
  | char c rest skips names =>
    by_cases hcomma : c = ','
    · subst hcomma
      simp only [readUpperBound]
      refine (agree_moveTo? _ _ rest).bind ?_ ?_
      · intro next next' _ _ hnext
        cases first.join with
        | none => exact .none_none
        | some least => exact agree_readMost hnext least
      · intro next' _ hclosing z hz
        obtain ⟨least, -, hz⟩ := Option.bind_eq_some_iff.mp hz
        rw [readMost_of_ne (by simp [hclosing, closing]), readCount_of_closing hclosing] at hz
        cases hz
    · rw [readUpperBound_of_ne (by simpa using hcomma),
        readUpperBound_of_ne (by simpa using hcomma)]
      exact hplain
  | before | swallowed => exact hplain

theorem agree_readBoundsEnd (h : Follows cur cur') (least : Nat) (most : Option Nat) :
    Agree Never (readBoundsEnd least most cur) (readBoundsEnd least most cur') := by
  cases h with
  | char c rest skips names =>
    by_cases hbrace : c = '\x7d'
    · subst hbrace
      simp only [readBoundsEnd]
      cases most.all (least ≤ ·) with
      | false => exact .none_none
      | true =>
        exact .of_follows ⟨rfl, rfl, (follows_moveTo _ _ rest).dropLazy⟩
    · have hnone (l : List Char) : readBoundsEnd least most ⟨c :: l, skips, names⟩ = none := by
        simp [readBoundsEnd, hbrace]
      rw [hnone, hnone]
      exact .none_none
  | before | swallowed => exact .none_none

/-- There are no bounds in the closing. -/
theorem readUpperBound_of_closing (h : cur.rest = closing) :
    readUpperBound (readCount cur).1 (readCount cur).2 = none := by
  rw [readCount_of_closing h, readUpperBound_of_ne (by simp [h, closing])]
  rfl

theorem agree_readBounds (h : Follows cur cur') :
    Agree Never (readBounds cur) (readBounds cur') := by
  rw [readBounds_eq, readBounds_eq]
  refine (agree_moveTo?_rest h).bind ?_ ?_
  · intro start start' _ _ hstart
    obtain ⟨hvalue, hplace⟩ := follows_readCount hstart
    rw [← hvalue]
    refine (agree_readUpperBound hplace _).bind ?_ nofun
    rintro ⟨least, most, next⟩ ⟨_, _, next'⟩ - - ⟨rfl, rfl, hnext⟩
    exact agree_readBoundsEnd hnext least most
  · intro start' _ hclosing z hz
    rw [readUpperBound_of_closing hclosing] at hz
    cases hz

/-- A brace before the closing opens no repetition. -/
theorem readBounds_of_moveTo {rest : List Char}
    (h : (moveTo ⟨rest, skips, names⟩ rest).rest = closing) :
    readBounds ⟨rest, skips, names⟩ = none := by
  rw [readBounds_eq]
  refine Option.bind_eq_none_iff.mpr fun start hstart => ?_
  obtain ⟨-, rfl⟩ := moveTo?_eq_some_iff.mp hstart
  rw [readUpperBound_of_closing h]
  rfl

/-! ### Groups -/

theorem agree_readFlags (off dangling : Bool) (found : List (PatternFlag × Bool)) (l : List Char) :
    Agree (fun y => y.2.2 = closing) (readFlags off dangling found l)
      (readFlags off dangling found (l ++ closing)) := by
  induction l generalizing off dangling found with
  | nil =>
    refine .of_none fun y hy => ?_
    cases dangling with
    | true => cases hy
    | false =>
      cases hy
      rfl
  | cons c rest ih =>
    rw [List.cons_append, readFlags, readFlags]
    split
    · cases dangling with
      | true => exact .none_none
      | false => exact .of_follows ⟨rfl, rfl, rfl⟩
    · split
      · cases off with
        | true => exact .none_none
        | false => exact ih _ _ _
      · cases flagOf? c with
        | none => exact .none_none
        | some flag =>
          dsimp only
          split
          · exact .none_none
          · exact ih _ _ _

/-- A name needs its closing angle bracket. -/
theorem readName_of_notMem {name l : List Char} (h : '>' ∉ l) : readName name l = none := by
  fun_induction readName name l with
  | case1 | case5 => rfl
  | case2 | case3 => exact absurd List.mem_cons_self h
  | case4 name c rest hc hchar ih => exact ih fun hmem => h (List.mem_cons_of_mem c hmem)

theorem agree_readName (name l : List Char) :
    Agree Never (readName name l) (readName name (l ++ closing)) := by
  induction l generalizing name with
  | nil =>
    rw [List.nil_append, readName_of_notMem (l := closing) (by decide)]
    exact .none_none
  | cons c rest ih =>
    by_cases hc : c = '>'
    · subst hc
      rw [List.cons_append, readName, readName]
      cases name.isEmpty with
      | true => exact .none_none
      | false => exact .of_follows ⟨rfl, rfl⟩
    · have hchar (l : List Char) : readName name (c :: l) =
          if isNameChar name.isEmpty c then readName (c :: name) l else none := by
        simp only [readName]
      rw [List.cons_append, hchar, hchar]
      split
      · exact ih _
      · exact .none_none

theorem past_of_readFlagsEnd {changes : List (PatternFlag × Bool)} {off : Bool}
    {y : Opening × PatternCursor} (h : readFlagsEnd changes off ⟨closing, skips, names⟩ = some y) :
    Past y := by
  simp only [closing, readFlagsEnd] at h
  split at h
  · cases h
  · cases h
    exact List.suffix_refl _

theorem agree_readFlagsEnd (h : Follows cur cur') (changes : List (PatternFlag × Bool))
    (off : Bool) :
    Agree Past (readFlagsEnd changes off cur) (readFlagsEnd changes off cur') := by
  cases h with
  | char c rest skips names =>
    by_cases hparen : c = ')'
    · subst hparen
      simp only [readFlagsEnd]
      split
      · exact .none_none
      · exact .of_follows ⟨rfl, follows_append rest skips names⟩
    · have hgroup (l : List Char) : readFlagsEnd changes off ⟨c :: l, skips, names⟩ =
          some (.group changes, ⟨l, skips, names⟩) := by
        simp only [readFlagsEnd]
      rw [hgroup, hgroup]
      exact .of_follows ⟨rfl, follows_append rest skips names⟩
  | before skips names => exact .of_none fun y hy => past_of_readFlagsEnd hy
  | swallowed => exact .none_none

theorem Follows.exists_rest {c : Char} {rest : List Char} (h : Follows cur cur')
    (hc : c ≠ ')') (hrest : cur'.rest = c :: rest) :
    ∃ l, cur.rest = c :: l ∧ rest = l ++ closing := by
  cases h with
  | char d l skips names =>
    cases hrest
    exact ⟨l, rfl, rfl⟩
  | before =>
    cases hrest
    exact absurd rfl hc
  | swallowed => cases hrest

theorem looksAround_append (l : List Char) : looksAround (l ++ closing) = looksAround l := by
  generalize hm : l ++ closing = m
  fun_cases looksAround m with
  | case1 rest | case2 rest =>
    obtain ⟨l', rfl, -⟩ := exists_eq_cons hm.symm (by decide)
    rfl
  | case3 rest | case4 rest =>
    obtain ⟨l', rfl, hl'⟩ := exists_eq_cons hm.symm (by decide)
    obtain ⟨l'', rfl, -⟩ := exists_eq_cons hl' (by decide)
    rfl
  | case5 m h1 h2 h3 h4 =>
    subst hm
    fun_cases looksAround l with
    | case1 rest => exact (h1 _ rfl).elim
    | case2 rest => exact (h2 _ rfl).elim
    | case3 rest => exact (h3 _ rfl).elim
    | case4 rest => exact (h4 _ rfl).elim
    | case5 => rfl

theorem nameStart?_append (l : List Char) :
    nameStart? (l ++ closing) = (nameStart? l).map (· ++ closing) := by
  generalize hm : l ++ closing = m
  fun_cases nameStart? m with
  | case1 rest =>
    obtain ⟨l', rfl, hl'⟩ := exists_eq_cons hm.symm (by decide)
    obtain ⟨l'', rfl, rfl⟩ := exists_eq_cons hl' (by decide)
    rfl
  | case2 rest =>
    obtain ⟨l', rfl, rfl⟩ := exists_eq_cons hm.symm (by decide)
    rfl
  | case3 m h1 h2 =>
    subst hm
    fun_cases nameStart? l with
    | case1 rest => exact (h1 _ rfl).elim
    | case2 rest => exact (h2 _ rfl).elim
    | case3 => rfl

theorem agree_readOpening (h : Follows cur cur') :
    Agree Past (readOpening cur) (readOpening cur') := by
  have hskip := h.skip
  by_cases hquestion : ∃ rest, cur'.skip.rest = '?' :: rest
  · obtain ⟨_, hrest'⟩ := hquestion
    obtain ⟨rest, hrest, rfl⟩ := hskip.exists_rest (by decide) hrest'
    rw [readOpening_question hrest, readOpening_question hrest', looksAround_append,
      nameStart?_append, h.skips_eq, h.names_eq]
    split
    · exact .none_none
    · cases nameStart? rest with
      | some l =>
        refine (agree_readName [] l).bind ?_ nofun
        rintro ⟨name, rest⟩ ⟨_, _⟩ - - ⟨rfl, rfl⟩
        dsimp only
        split
        · exact .none_none
        · exact .of_follows ⟨rfl, follows_append rest _ _⟩
      | none =>
        refine (agree_readFlags false false [] rest).bind ?_ ?_
        · rintro ⟨changes, off, rest⟩ ⟨_, _, _⟩ - - ⟨rfl, rfl, rfl⟩
          exact agree_readFlagsEnd (follows_append rest _ _) changes off
        · rintro ⟨changes, off, _⟩ - rfl z hz
          exact past_of_readFlagsEnd hz
  · have hplain : ∀ rest, cur.skip.rest ≠ '?' :: rest := by
      intro rest hrest
      generalize cur.skip = start at hskip hrest
      generalize cur'.skip = start' at hskip hquestion
      cases hskip <;> cases hrest
      exact hquestion ⟨_, rfl⟩
    rw [readOpening_of_ne hplain, readOpening_of_ne fun rest hrest => hquestion ⟨rest, hrest⟩]
    exact .of_follows ⟨rfl, hskip⟩

/-! ### Alternatives -/

/-- What a piece that the closing completes can be. -/
def PastPiece (y : Piece × PatternCursor) : Prop :=
  Past y ∨ ∃ items, y.1 = .items items ∧ Unclosed y.2

theorem agree_pieceOf? (items : List Written) (c : Char) (rest : List Char) (skips : Bool)
    (names : List String) :
    Agree PastPiece (pieceOf? items c ⟨rest, skips, names⟩)
      (pieceOf? items c ⟨rest ++ closing, skips, names⟩) := by
  have hrest := follows_append rest skips names
  have hcopies (least : Nat) (most : Option Nat) : Agree PastPiece
      ((repeatable items).bind fun x => some
        (Piece.items (.times x.1 least most :: x.2),
          (⟨dropLazy rest, skips, names⟩ : PatternCursor)))
      ((repeatable items).bind fun x => some
        (Piece.items (.times x.1 least most :: x.2),
          (⟨dropLazy (rest ++ closing), skips, names⟩ : PatternCursor))) := by
    cases repeatable items with
    | none => exact .none_none
    | some x => exact .of_follows ⟨rfl, hrest.dropLazy⟩
  unfold pieceOf?
  dsimp only
  split
  case h_1 => exact .of_follows ⟨rfl, .char _ _ _ _⟩
  case h_3 =>
    refine (agree_readOpening hrest).bind ?_ ?_
    · rintro ⟨opening, next⟩ ⟨_, next'⟩ - - ⟨rfl, hnext⟩
      cases opening with
      | flags changes | group changes =>
        refine .of_follows ⟨rfl, ?_⟩
        rw [hnext.skips_eq]
        exact hnext.with_skips _
    · rintro ⟨opening, next'⟩ - hpast z hz
      cases opening with
      | flags changes | group changes =>
        cases hz
        exact .inl hpast
  case h_4 =>
    refine (agree_readClass hrest).bind ?_ nofun
    rintro ⟨w, next⟩ ⟨_, next'⟩ - - ⟨rfl, hnext⟩
    exact .of_follows ⟨rfl, hnext⟩
  case h_5 | h_6 | h_7 => exact hcopies _ _
  case h_8 =>
    cases repeatable items with
    | none => exact .none_none
    | some x =>
      refine (agree_readBounds hrest).bind ?_ nofun
      rintro ⟨least, most, next⟩ ⟨_, _, next'⟩ - - ⟨rfl, rfl, hnext⟩
      exact .of_follows ⟨rfl, hnext⟩
  case h_9 =>
    refine (agree_readEscape hrest).bind ?_ ?_
    · rintro ⟨e, next⟩ ⟨_, next'⟩ - - ⟨rfl, hnext⟩
      exact .of_follows ⟨rfl, hnext⟩
    · rintro ⟨e, next'⟩ - hpast z ⟨⟩
      rcases hpast with hpast | ⟨-, hunclosed⟩
      · exact .inl hpast
      · exact .inr ⟨_, rfl, hunclosed⟩
  all_goals exact .of_follows ⟨rfl, hrest⟩

theorem agree_nextPiece? (h : Follows cur cur') (items : List Written) :
    Agree PastPiece (nextPiece? items cur) (nextPiece? items cur') := by
  unfold nextPiece?
  have hskip := h.skip
  generalize cur.skip = start at hskip ⊢
  generalize cur'.skip = start' at hskip ⊢
  cases hskip with
  | char c rest skips names => exact agree_pieceOf? items c rest skips names
  | before skips names => exact .of_follows ⟨rfl, .before skips names⟩
  | swallowed skips names => exact .of_follows ⟨rfl, .swallowed skips names⟩

/-- A boundary before a brace that is not closed is no pattern: the brace opens no repetition. -/
theorem readAlternatives_of_unclosed {n : Nat} (h : Unclosed cur) (done items : List Written) :
    readAlternatives n cur done items = none := by
  obtain ⟨l, skips, names⟩ := cur
  obtain ⟨rest, hrest, hclosing⟩ := h
  cases hrest
  cases n with
  | zero => rfl
  | succ n =>
    have hbounds : readBounds ⟨rest, skips, names⟩ = none := readBounds_of_moveTo hclosing
    have hpiece : nextPiece? items ⟨'\x7b' :: rest, skips, names⟩ = none := by
      rw [nextPiece?, skip_brace]
      dsimp only [pieceOf?]
      cases repeatable items with
      | none => rfl
      | some x =>
        dsimp only [Option.bind_eq_bind, Option.bind_some]
        rw [hbounds]
        rfl
    rw [readAlternatives_succ, hpiece]
    rfl

theorem agree_leaveGroup? (h : Follows cur cur') (skips : Bool) :
    Agree Past (leaveGroup? skips cur) (leaveGroup? skips cur') := by
  cases h with
  | char c rest _ names =>
    by_cases hparen : c = ')'
    · subst hparen
      exact .of_follows (follows_append rest skips names)
    · have hnone (l : List Char) (skips' : Bool) :
          leaveGroup? skips ⟨c :: l, skips', names⟩ = none := by
        simp [leaveGroup?, hparen]
      rw [hnone, hnone]
      exact .none_none
  | before _ names =>
    refine .of_none ?_
    rintro _ ⟨⟩
    exact List.suffix_refl _
  | swallowed => exact .none_none

/-- **Alternatives are read alike**: with the closing behind it a text is read as without, up to the
closing, or it is read into the closing. -/
theorem agree_readAlternatives {n n' : Nat} (h : Follows cur cur') (hn : cur.rest.length < n)
    (hn' : cur'.rest.length < n') (done items : List Written) :
    Agree Past (readAlternatives n cur done items) (readAlternatives n' cur' done items) := by
  induction n generalizing cur cur' n' done items with
  | zero => cases hn
  | succ n ih =>
    obtain ⟨n', rfl⟩ := Nat.exists_eq_add_one.mpr (Nat.zero_lt_of_lt hn')
    rw [readAlternatives_succ, readAlternatives_succ, h.skips_eq]
    refine (agree_nextPiece? h items).bind ?_ ?_
    · rintro ⟨piece, next⟩ ⟨_, next'⟩ hpiece hpiece' ⟨rfl, hnext⟩
      have hlt (hstop : piece ≠ .stop) : next.rest.length < n :=
        (length_lt_of_nextPiece? hpiece hstop).trans_le (Nat.le_of_lt_succ hn)
      have hlt' (hstop : piece ≠ .stop) : next'.rest.length < n' :=
        (length_lt_of_nextPiece? hpiece' hstop).trans_le (Nat.le_of_lt_succ hn')
      cases piece with
      | stop => exact .of_follows ⟨rfl, hnext⟩
      | bar => exact ih hnext (hlt nofun) (hlt' nofun) _ _
      | items items' => exact ih hnext (hlt nofun) (hlt' nofun) _ _
      | group changes =>
        refine (ih hnext (hlt nofun) (hlt' nofun) [] []).bind ?_ ?_
        · rintro ⟨body, inner⟩ ⟨_, inner'⟩ hbody hbody' ⟨rfl, hinner⟩
          refine (agree_leaveGroup? hinner cur.skips).bind ?_ ?_
          · intro behind behind' hleave hleave' hbehind
            have hle := (leaveGroup?_suffix hleave).length_le.trans
              (readAlternatives_suffix hbody).length_le
            have hle' := (leaveGroup?_suffix hleave').length_le.trans
              (readAlternatives_suffix hbody').length_le
            exact ih hbehind (hle.trans_lt (hlt nofun)) (hle'.trans_lt (hlt' nofun)) _ _
          · exact fun behind' _ hpast z hz => (readAlternatives_suffix hz).trans hpast
        · rintro ⟨body, inner'⟩ - hpast z hz
          obtain ⟨behind', hleave, hz⟩ := Option.bind_eq_some_iff.mp hz
          exact (readAlternatives_suffix hz).trans ((leaveGroup?_suffix hleave).trans hpast)
    · rintro ⟨piece, next'⟩ hpiece' hpast z hz
      rcases hpast with hpast | ⟨items', hitems, hunclosed⟩
      · cases piece with
        | stop =>
          cases hz
          exact hpast
        | bar | items items' => exact (readAlternatives_suffix hz).trans hpast
        | group changes =>
          obtain ⟨⟨body, inner'⟩, hbody, hz⟩ := Option.bind_eq_some_iff.mp hz
          obtain ⟨behind', hleave, hz⟩ := Option.bind_eq_some_iff.mp hz
          exact (readAlternatives_suffix hz).trans <| (leaveGroup?_suffix hleave).trans <|
            (readAlternatives_suffix hbody).trans hpast
      · cases hitems
        dsimp only at hz
        rw [readAlternatives_of_unclosed hunclosed] at hz
        cases hz

end KeyedSeries.PatternCursor

import KeyedSeries.Proofs.Regex.Pieces
import Mathlib.Data.List.Infix

/-!
# What is left of a pattern

A reader of patterns only ever goes forward: **what it leaves is an end of what it was given**, and
a reader that asks for something leaves less. Lemmas named `_suffix` say the first, those named
`_suffix_tail` the second. They carry through to whole classes and alternatives
(`KeyedSeries.PatternCursor.readClassBody_suffix_tail`,
`KeyedSeries.PatternCursor.readAlternatives_suffix`). So a reader that is granted more steps than
there are characters never runs out of them
(`KeyedSeries.PatternCursor.readAlternatives_eq_of_lt`).
-/

namespace KeyedSeries.PatternCursor

/-! ### Ends of lists -/

/-- An end of a part is an end of the whole. -/
theorem suffix_of_tail {l m n : List Char} (h : l <:+ m.tail) (hm : m <:+ n) : l <:+ n :=
  h.trans ((List.tail_suffix m).trans hm)

theorem tail_suffix_tail {l m : List Char} (h : l <:+ m) : l.tail <:+ m.tail := by
  obtain ⟨eaten, rfl⟩ := h
  cases eaten with
  | nil => exact List.suffix_refl _
  | cons c eaten => exact suffix_of_tail (List.suffix_refl _) (List.suffix_append _ _)

variable {cur next : PatternCursor} {n : Nat}

theorem length_le_of_suffix_tail {l m : List Char} (h : l <:+ m.tail) (hm : m.length ≤ n + 1) :
    l.length ≤ n := by
  have hle := h.length_le
  rw [List.length_tail] at hle
  omega

/-! ### Blanks and numbers -/

theorem dropBlanks_suffix (inComment : Bool) (l : List Char) : dropBlanks inComment l <:+ l := by
  fun_induction dropBlanks inComment l with
  | case1 | case5 => exact List.suffix_refl _
  | case2 c rest ih => exact ih.trans (List.suffix_cons c rest)
  | case3 _ c rest _ _ ih => exact ih.trans (List.suffix_cons c rest)
  | case4 _ c rest _ _ _ ih => exact ih.trans (List.suffix_cons c rest)

theorem skip_suffix (cur : PatternCursor) : cur.skip.rest <:+ cur.rest := by
  unfold skip skipped
  split
  · exact dropBlanks_suffix _ _
  · exact List.suffix_refl _

theorem moveTo_suffix (cur : PatternCursor) (rest : List Char) : (cur.moveTo rest).rest <:+ rest :=
  skip_suffix _

theorem moveTo?_eq_some_iff {rest : List Char} :
    cur.moveTo? rest = some next ↔ (cur.moveTo rest).rest ≠ [] ∧ next = cur.moveTo rest := by
  unfold moveTo?
  dsimp only
  cases hrest : (cur.moveTo rest).rest with
  | nil => simp
  | cons c l => simpa using eq_comm

theorem rest_ne_nil_of_moveTo? {rest : List Char} (h : cur.moveTo? rest = some next) :
    next.rest ≠ [] := by
  obtain ⟨hne, rfl⟩ := moveTo?_eq_some_iff.mp h
  exact hne

theorem moveTo?_suffix {rest : List Char} (h : cur.moveTo? rest = some next) :
    next.rest <:+ rest := by
  obtain ⟨-, rfl⟩ := moveTo?_eq_some_iff.mp h
  exact moveTo_suffix cur rest

/-- A reader that starts behind a character. -/
theorem suffix_of_moveTo {l rest : List Char} {c : Char} (hrest : cur.rest = c :: rest)
    (h : l <:+ (cur.moveTo rest).rest) : l <:+ cur.rest.tail := by
  rw [hrest]
  exact h.trans (moveTo_suffix cur rest)

theorem readWhile_suffix (p : Char → Bool) (steps : Nat) (cur : PatternCursor)
    (taken : List Char) : (readWhile p steps cur taken).2.rest <:+ cur.rest := by
  fun_induction readWhile p steps cur taken with
  | case2 steps cur taken c rest hrest hp ih =>
    exact suffix_of_tail (suffix_of_moveTo hrest ih) (List.suffix_refl _)
  | case1 | case3 | case4 => exact List.suffix_refl _

theorem dropSpaces_suffix (cur : PatternCursor) : cur.dropSpaces.rest <:+ cur.rest :=
  List.dropWhile_suffix _

theorem readCount_suffix (cur : PatternCursor) : cur.readCount.2.rest <:+ cur.rest := by
  have hdigits := readWhile_suffix isDigit cur.dropSpaces.rest.length cur.dropSpaces []
  rw [← readDigits_eq] at hdigits
  exact (skip_suffix _).trans <| (dropSpaces_suffix _).trans <|
    hdigits.trans (dropSpaces_suffix cur)

/-! ### Characters and properties -/

theorem readHex_suffix {digits : List Char} {c : Char}
    (h : readHex n cur digits = some (c, next)) : next.rest <:+ cur.rest := by
  induction n generalizing cur digits with
  | zero =>
    obtain ⟨_, -, hresult⟩ := Option.map_eq_some_iff.mp h
    cases hresult
    exact List.suffix_refl _
  | succ n ih =>
    rw [readHex] at h
    split at h
    · next d rest hrest =>
      split at h
      · exact suffix_of_tail (suffix_of_moveTo hrest (ih h)) (List.suffix_refl _)
      · cases h
    · cases h

theorem readHex_suffix_tail {digits : List Char} {c : Char}
    (h : readHex (n + 1) cur digits = some (c, next)) : next.rest <:+ cur.rest.tail := by
  rw [readHex] at h
  split at h
  · next d rest hrest =>
    split at h
    · exact suffix_of_moveTo hrest (readHex_suffix h)
    · cases h
  · cases h

theorem readBracedHex_suffix_tail {digits : List Char} {c : Char}
    (h : readBracedHex n cur digits = some (c, next)) : next.rest <:+ cur.rest.tail := by
  induction n generalizing cur digits with
  | zero => cases h
  | succ n ih =>
    rw [readBracedHex] at h
    split at h
    · next rest hrest =>
      split at h
      · cases h
      · obtain ⟨_, -, hresult⟩ := Option.map_eq_some_iff.mp h
        cases hresult
        exact suffix_of_moveTo hrest (List.suffix_refl _)
    · next d rest _ hrest =>
      split at h
      · exact suffix_of_moveTo hrest (suffix_of_tail (ih h) (List.suffix_refl _))
      · cases h
    · cases h

theorem readHexChar_suffix_tail {count : Nat} {w : WrittenChar} (hcount : 0 < count)
    (h : readHexChar count cur = some (w, next)) : next.rest <:+ cur.rest.tail := by
  obtain ⟨count, rfl⟩ := Nat.exists_eq_add_one.mpr hcount
  unfold readHexChar at h
  split at h
  · next rest hrest =>
    obtain ⟨⟨c, last⟩, hread, hresult⟩ := Option.bind_eq_some_iff.mp h
    cases hresult
    exact suffix_of_moveTo hrest <|
      suffix_of_tail (readBracedHex_suffix_tail hread) (List.suffix_refl _)
  · obtain ⟨⟨c, last⟩, hread, hresult⟩ := Option.bind_eq_some_iff.mp h
    cases hresult
    exact readHex_suffix_tail hread

theorem readBraced_suffix_tail {acc name : List Char}
    (h : readBraced n cur acc = some (name, next)) : next.rest <:+ cur.rest.tail := by
  induction n generalizing cur acc with
  | zero => cases h
  | succ n ih =>
    rw [readBraced] at h
    split at h
    · next rest hrest =>
      cases h
      rw [hrest, List.tail_cons]
    · next c rest _ hrest =>
      exact suffix_of_moveTo hrest (suffix_of_tail (ih h) (List.suffix_refl _))
    · cases h

theorem readProperty_suffix_tail {negated negated' : Bool} {q : PropertyQuery}
    (h : readProperty negated cur = some (negated', q, next)) : next.rest <:+ cur.rest.tail := by
  unfold readProperty at h
  split at h
  · next rest hrest =>
    obtain ⟨⟨name, last⟩, hread, hresult⟩ := Option.bind_eq_some_iff.mp h
    cases hresult
    exact suffix_of_moveTo hrest <|
      suffix_of_tail (readBraced_suffix_tail hread) (List.suffix_refl _)
  · cases h
  · next c rest _ _ hrest =>
    cases h
    exact suffix_of_moveTo hrest (List.suffix_refl _)
  · cases h

/-! ### Escapes -/

theorem readBoundaryEnd_suffix {name : List Char} {a : Anchor}
    (h : readBoundaryEnd name cur = some (a, next)) : next.rest <:+ cur.rest := by
  unfold readBoundaryEnd at h
  split at h
  · next rest hrest =>
    obtain ⟨_, -, hresult⟩ := Option.map_eq_some_iff.mp h
    cases hresult
    rw [hrest]
    exact List.suffix_cons _ _
  · cases h

theorem readBoundary_suffix {a : Anchor} (h : readBoundary cur = some (a, next)) :
    next.rest <:+ cur.rest := by
  obtain ⟨l, skips, names⟩ := cur
  by_cases hbrace : ∃ rest, l = '\x7b' :: rest
  · obtain ⟨rest, rfl⟩ := hbrace
    rw [readBoundary_brace] at h
    obtain ⟨inner, hinner, h⟩ := Option.bind_eq_some_iff.mp h
    obtain ⟨c, -, h⟩ := Option.bind_eq_some_iff.mp h
    rw [readBoundaryName_eq] at h
    split at h
    · exact ((readBoundaryEnd_suffix h).trans <| (readWhile_suffix _ _ _ _).trans <|
        moveTo?_suffix hinner).trans (List.suffix_cons _ _)
    · cases h
      exact List.suffix_refl _
  · rw [readBoundary_of_ne (fun rest hrest => hbrace ⟨rest, hrest⟩)] at h
    cases h
    exact List.suffix_refl _

theorem readEscape_suffix_tail {e : Escape} (h : readEscape cur = some (e, next)) :
    next.rest <:+ cur.rest.tail := by
  obtain ⟨_ | ⟨c, rest⟩, skips, names⟩ := cur
  · cases h
  rw [readEscape_cons] at h
  rw [List.tail_cons]
  cases hkind : escapeKind c with
  | hex count =>
    simp only [hkind, Option.bind_eq_some_iff] at h
    obtain ⟨inner, hinner, ⟨w, last⟩, hread, hresult⟩ := h
    cases hresult
    exact suffix_of_tail (readHexChar_suffix_tail (pos_of_escapeKind hkind) hread)
      (moveTo?_suffix hinner)
  | property negated =>
    simp only [hkind, Option.bind_eq_some_iff] at h
    obtain ⟨inner, hinner, ⟨opposite, q, last⟩, hread, hresult⟩ := h
    cases hresult
    exact suffix_of_tail (readProperty_suffix_tail hread) (moveTo?_suffix hinner)
  | boundary =>
    simp only [hkind, Option.bind_eq_some_iff] at h
    obtain ⟨⟨a, last⟩, hread, hresult⟩ := h
    cases hresult
    exact readBoundary_suffix hread
  | alone e? =>
    simp only [hkind, Option.map_eq_some_iff] at h
    obtain ⟨e, -, hresult⟩ := h
    cases hresult
    exact List.suffix_refl _

/-! ### Classes -/

theorem readNamedClass?_suffix {c : WrittenClass} (h : readNamedClass? cur = some (c, next)) :
    next.rest <:+ cur.rest := by
  unfold readNamedClass? at h
  grind [List.dropWhile_suffix, List.IsSuffix.trans, List.suffix_cons, Option.map_eq_some_iff]

theorem readClassItem_suffix_tail {e : Escape} (h : readClassItem cur = some (e, next)) :
    next.rest <:+ cur.rest.tail := by
  unfold readClassItem at h
  split at h
  · next rest hrest =>
    rw [hrest]
    exact suffix_of_tail (readEscape_suffix_tail h) (List.suffix_refl _)
  · next c rest _ hrest =>
    cases h
    rw [hrest, List.tail_cons]
  · cases h

theorem single?_suffix {first : Escape} {c : WrittenClass}
    (h : single? first cur = some (c, next)) : next.rest <:+ cur.rest := by
  obtain ⟨_, -, hresult⟩ := Option.map_eq_some_iff.mp h
  cases hresult
  exact List.suffix_refl _

theorem rangeOf?_suffix {first second : Escape} {c : WrittenClass}
    (h : rangeOf? first second cur = some (c, next)) : next.rest <:+ cur.rest := by
  unfold rangeOf? at h
  split at h
  · split at h
    · cases h
      exact List.suffix_refl _
    · cases h
  · cases h

theorem readRangeEnd_suffix {first : Escape} {c : WrittenClass}
    (h : readRangeEnd first cur = some (c, next)) : next.rest <:+ cur.rest := by
  unfold readRangeEnd at h
  split at h
  · cases h
  · next rest hrest =>
    split at h
    · exact single?_suffix h
    · obtain ⟨inner, hinner, h⟩ := Option.bind_eq_some_iff.mp h
      obtain ⟨⟨second, last⟩, hsecond, h⟩ := Option.bind_eq_some_iff.mp h
      have hlast := suffix_of_tail (readClassItem_suffix_tail hsecond) (moveTo?_suffix hinner)
      rw [hrest]
      exact ((rangeOf?_suffix h).trans hlast).trans (List.suffix_cons _ _)
  · exact single?_suffix h

theorem readClassRange_suffix_tail {c : WrittenClass} (h : readClassRange cur = some (c, next)) :
    next.rest <:+ cur.rest.tail := by
  rw [readClassRange_eq] at h
  obtain ⟨⟨first, behind⟩, hfirst, h⟩ := Option.bind_eq_some_iff.mp h
  exact (readRangeEnd_suffix h).trans <|
    (skip_suffix behind).trans (readClassItem_suffix_tail hfirst)

theorem readLeadingDashes_suffix {items items' : List WrittenClass}
    (h : readLeadingDashes n cur items = some (items', next)) : next.rest <:+ cur.rest := by
  induction n generalizing cur items with
  | zero => cases h
  | succ n ih =>
    rw [readLeadingDashes] at h
    split at h
    · next rest hrest =>
      obtain ⟨inner, hinner, h⟩ := Option.bind_eq_some_iff.mp h
      rw [hrest]
      exact ((ih h).trans (moveTo?_suffix hinner)).trans (List.suffix_cons _ _)
    · cases h
      exact List.suffix_refl _

theorem readNegation_suffix {negated : Bool} (h : readNegation cur = some (negated, next)) :
    next.rest <:+ cur.rest := by
  unfold readNegation at h
  split at h
  · next rest hrest =>
    obtain ⟨inner, hinner, hresult⟩ := Option.map_eq_some_iff.mp h
    cases hresult
    rw [hrest]
    exact (moveTo?_suffix hinner).trans (List.suffix_cons _ _)
  · cases h
    exact List.suffix_refl _

theorem readFirstBracket_suffix {items items' : List WrittenClass}
    (h : readFirstBracket items cur = some (items', next)) : next.rest <:+ cur.rest := by
  unfold readFirstBracket at h
  split at h
  · next rest hrest =>
    obtain ⟨inner, hinner, hresult⟩ := Option.map_eq_some_iff.mp h
    cases hresult
    rw [hrest]
    exact (moveTo?_suffix hinner).trans (List.suffix_cons _ _)
  · cases h
    exact List.suffix_refl _

theorem readClassStart_suffix {negated : Bool} {items : List WrittenClass}
    (h : readClassStart cur = some (negated, items, next)) : next.rest <:+ cur.rest := by
  rw [readClassStart_eq] at h
  obtain ⟨start, hstart, h⟩ := Option.bind_eq_some_iff.mp h
  obtain ⟨⟨_, sign⟩, hsign, h⟩ := Option.bind_eq_some_iff.mp h
  obtain ⟨⟨_, dashes⟩, hdashes, h⟩ := Option.bind_eq_some_iff.mp h
  obtain ⟨⟨_, _⟩, hbracket, hresult⟩ := Option.map_eq_some_iff.mp h
  cases hresult
  exact (readFirstBracket_suffix hbracket).trans <| (readLeadingDashes_suffix hdashes).trans <|
    (readNegation_suffix hsign).trans (moveTo?_suffix hstart)

theorem classSign?_suffix_tail {l rest : List Char} {piece : ClassPiece}
    (h : classSign? l = some (piece, rest)) : rest <:+ l.tail := by
  unfold classSign? at h
  split at h
  · cases h
    exact List.suffix_refl _
  · cases h
    exact List.suffix_cons _ _
  · cases h
    exact List.suffix_cons _ _
  · cases h
    exact List.suffix_cons _ _
  · cases h

theorem readInnerClass_suffix {piece : ClassPiece} (h : readInnerClass cur = some (piece, next)) :
    next.rest <:+ cur.rest := by
  unfold readInnerClass at h
  split at h
  · next hnamed =>
    cases h
    exact readNamedClass?_suffix hnamed
  · obtain ⟨⟨_, _, last⟩, hstart, hresult⟩ := Option.map_eq_some_iff.mp h
    cases hresult
    exact readClassStart_suffix hstart

theorem readClassPiece_suffix_tail {piece : ClassPiece}
    (h : readClassPiece cur = some (piece, next)) : next.rest <:+ cur.rest.tail := by
  unfold readClassPiece at h
  split at h
  · next rest hrest =>
    rw [hrest]
    exact readInnerClass_suffix h
  · obtain ⟨⟨_, last⟩, hread, hresult⟩ := Option.map_eq_some_iff.mp h
    cases hresult
    exact readClassRange_suffix_tail hread

theorem nextClassPiece?_suffix_tail {piece : ClassPiece}
    (h : nextClassPiece? cur = some (piece, next)) : next.rest <:+ cur.rest.tail := by
  refine List.IsSuffix.trans ?_ (tail_suffix_tail (skip_suffix cur))
  unfold nextClassPiece? at h
  split at h
  · next hsign =>
    cases h
    exact classSign?_suffix_tail hsign
  · exact readClassPiece_suffix_tail h

/-- A class is read up to its end. -/
theorem readClassBody_suffix_tail {pending : PendingOp} {items : List WrittenClass}
    {c : WrittenClass} (h : readClassBody n cur pending items = some (c, next)) :
    next.rest <:+ cur.rest.tail := by
  induction n generalizing cur next pending items c with
  | zero => cases h
  | succ n ih =>
    rw [readClassBody_succ] at h
    obtain ⟨⟨piece, behind⟩, hpiece, h⟩ := Option.bind_eq_some_iff.mp h
    have hbehind := nextClassPiece?_suffix_tail hpiece
    cases piece with
    | close =>
      cases h
      exact hbehind
    | operate k => exact suffix_of_tail (ih h) hbehind
    | item c => exact suffix_of_tail (ih h) hbehind
    | bracket negated first =>
      obtain ⟨⟨body, inner⟩, hbody, h⟩ := Option.bind_eq_some_iff.mp h
      exact suffix_of_tail (ih h) (suffix_of_tail (ih hbody) hbehind)

theorem readClass_suffix {w : Written} (h : readClass cur = some (w, next)) :
    next.rest <:+ cur.rest := by
  obtain ⟨⟨negated, items, start⟩, hstart, h⟩ := Option.bind_eq_some_iff.mp h
  obtain ⟨⟨body, last⟩, hbody, hresult⟩ := Option.bind_eq_some_iff.mp h
  cases hresult
  exact suffix_of_tail (readClassBody_suffix_tail hbody) (readClassStart_suffix hstart)

/-! ### Repetitions and groups -/

theorem dropLazy_suffix (l : List Char) : dropLazy l <:+ l := by
  unfold dropLazy
  split
  · exact List.suffix_cons _ _
  · exact List.suffix_refl _

theorem readMost_suffix {least least' : Nat} {most : Option Nat}
    (h : readMost least cur = some (least', most, next)) : next.rest <:+ cur.rest := by
  unfold readMost at h
  split at h
  · cases h
    exact List.suffix_refl _
  · obtain ⟨_, -, hresult⟩ := Option.map_eq_some_iff.mp h
    cases hresult
    exact readCount_suffix cur

theorem readUpperBound_suffix {first : Option (Option Nat)} {least : Nat} {most : Option Nat}
    (h : readUpperBound first cur = some (least, most, next)) : next.rest <:+ cur.rest := by
  unfold readUpperBound at h
  split at h
  · next rest hrest =>
    obtain ⟨inner, hinner, h⟩ := Option.bind_eq_some_iff.mp h
    obtain ⟨_, -, h⟩ := Option.bind_eq_some_iff.mp h
    rw [hrest]
    exact ((readMost_suffix h).trans (moveTo?_suffix hinner)).trans (List.suffix_cons _ _)
  · obtain ⟨_, -, hresult⟩ := Option.map_eq_some_iff.mp h
    cases hresult
    exact List.suffix_refl _

theorem readBoundsEnd_suffix {least least' : Nat} {most most' : Option Nat}
    (h : readBoundsEnd least most cur = some (least', most', next)) : next.rest <:+ cur.rest := by
  unfold readBoundsEnd at h
  split at h
  · next rest hrest =>
    dsimp only at h
    split at h
    · cases h
      rw [hrest]
      exact ((dropLazy_suffix _).trans (moveTo_suffix cur rest)).trans (List.suffix_cons _ _)
    · cases h
  · cases h

theorem readBounds_suffix {least : Nat} {most : Option Nat}
    (h : readBounds cur = some (least, most, next)) : next.rest <:+ cur.rest := by
  rw [readBounds_eq] at h
  obtain ⟨start, hstart, h⟩ := Option.bind_eq_some_iff.mp h
  obtain ⟨⟨_, _, last⟩, hupper, h⟩ := Option.bind_eq_some_iff.mp h
  exact (readBoundsEnd_suffix h).trans <| (readUpperBound_suffix hupper).trans <|
    (readCount_suffix start).trans (moveTo?_suffix hstart)

theorem readFlags_suffix {off dangling off' : Bool} {found changes : List (PatternFlag × Bool)}
    {l rest : List Char} (h : readFlags off dangling found l = some (changes, off', rest)) :
    rest <:+ l := by
  fun_induction readFlags off dangling found l <;> grind [List.suffix_cons, List.IsSuffix.trans]

theorem readName_suffix {name : List Char} {s : String} {l rest : List Char}
    (h : readName name l = some (s, rest)) : rest <:+ l := by
  fun_induction readName name l <;> grind [List.suffix_cons, List.IsSuffix.trans]

theorem nameStart?_suffix {l rest : List Char} (h : nameStart? l = some rest) : rest <:+ l := by
  unfold nameStart? at h
  split at h
  · cases h
    exact (List.suffix_cons _ _).trans (List.suffix_cons _ _)
  · cases h
    exact List.suffix_cons _ _
  · cases h

theorem readFlagsEnd_suffix {changes : List (PatternFlag × Bool)} {off : Bool} {o : Opening}
    (h : readFlagsEnd changes off cur = some (o, next)) : next.rest <:+ cur.rest := by
  unfold readFlagsEnd at h
  split at h
  · next rest hrest =>
    split at h
    · cases h
    · cases h
      rw [hrest]
      exact List.suffix_cons _ _
  · next rest _ hrest =>
    cases h
    rw [hrest]
    exact List.suffix_cons _ _
  · cases h

theorem readOpening_suffix {o : Opening} (h : readOpening cur = some (o, next)) :
    next.rest <:+ cur.rest := by
  refine List.IsSuffix.trans ?_ (skip_suffix cur)
  by_cases hquestion : ∃ rest, cur.skip.rest = '?' :: rest
  · obtain ⟨rest, hrest⟩ := hquestion
    rw [readOpening_question hrest] at h
    rw [hrest]
    refine List.IsSuffix.trans ?_ (List.suffix_cons _ _)
    split at h
    · cases h
    · split at h
      · next l hl =>
        obtain ⟨⟨name, last⟩, hname, h⟩ := Option.bind_eq_some_iff.mp h
        dsimp only at h
        split at h
        · cases h
        · cases h
          exact (readName_suffix hname).trans (nameStart?_suffix hl)
      · obtain ⟨⟨changes, off, last⟩, hflags, h⟩ := Option.bind_eq_some_iff.mp h
        exact (readFlagsEnd_suffix h).trans (readFlags_suffix hflags)
  · rw [readOpening_of_ne (fun rest hrest => hquestion ⟨rest, hrest⟩)] at h
    cases h
    exact List.suffix_refl _

/-! ### Alternatives -/

/-- A piece leaves an end of what stands behind its first character. -/
theorem pieceOf?_suffix {items : List Written} {c : Char} {piece : Piece}
    (h : pieceOf? items c cur = some (piece, next)) (hstop : piece ≠ .stop) :
    next.rest <:+ cur.rest := by
  unfold pieceOf? at h
  dsimp only at h
  split at h
  case h_1 =>
    cases h
    exact absurd rfl hstop
  case h_3 =>
    obtain ⟨⟨opening, last⟩, hopening, h⟩ := Option.bind_eq_some_iff.mp h
    have hlast := readOpening_suffix hopening
    cases opening with
    | flags changes | group changes =>
      cases h
      exact hlast
  case h_4 =>
    obtain ⟨⟨w, last⟩, hclass, hresult⟩ := Option.bind_eq_some_iff.mp h
    cases hresult
    exact readClass_suffix hclass
  case h_5 | h_6 | h_7 =>
    obtain ⟨⟨w, before⟩, -, hresult⟩ := Option.bind_eq_some_iff.mp h
    cases hresult
    exact dropLazy_suffix _
  case h_8 =>
    obtain ⟨⟨w, before⟩, -, h⟩ := Option.bind_eq_some_iff.mp h
    obtain ⟨⟨least, most, last⟩, hbounds, hresult⟩ := Option.bind_eq_some_iff.mp h
    cases hresult
    exact readBounds_suffix hbounds
  case h_9 =>
    obtain ⟨⟨e, last⟩, hescape, hresult⟩ := Option.bind_eq_some_iff.mp h
    cases hresult
    exact suffix_of_tail (readEscape_suffix_tail hescape) (List.suffix_refl _)
  all_goals
    cases h
    exact List.suffix_refl _

theorem nextPiece?_suffix_tail {items : List Written} {piece : Piece}
    (h : nextPiece? items cur = some (piece, next)) (hstop : piece ≠ .stop) :
    next.rest <:+ cur.rest.tail := by
  refine List.IsSuffix.trans ?_ (tail_suffix_tail (skip_suffix cur))
  unfold nextPiece? at h
  split at h
  · cases h
    exact absurd rfl hstop
  · next c rest hrest =>
    rw [hrest, List.tail_cons]
    exact pieceOf?_suffix h hstop

/-- A piece has at least a character. -/
theorem length_lt_of_nextPiece? {items : List Written} {piece : Piece}
    (h : nextPiece? items cur = some (piece, next)) (hstop : piece ≠ .stop) :
    next.rest.length < cur.rest.length := by
  have hle := (nextPiece?_suffix_tail h hstop).length_le
  rw [List.length_tail] at hle
  cases hrest : cur.rest with
  | nil =>
    have hskip : cur.skip.rest = [] := List.suffix_nil.mp (hrest ▸ skip_suffix cur)
    unfold nextPiece? at h
    rw [hskip] at h
    cases h
    exact absurd rfl hstop
  | cons c rest =>
    rw [hrest] at hle
    exact Nat.lt_succ_of_le hle

/-- Only a closing parenthesis stops alternatives. -/
theorem pieceOf?_eq_stop {items : List Written} {c : Char}
    (h : pieceOf? items c cur = some (.stop, next)) :
    c = ')' ∧ next = { cur with rest := ')' :: cur.rest } := by
  unfold pieceOf? at h
  dsimp only at h
  split at h
  case h_1 =>
    cases h
    exact ⟨rfl, rfl⟩
  case h_3 =>
    obtain ⟨⟨opening, last⟩, -, h⟩ := Option.bind_eq_some_iff.mp h
    cases opening <;> cases h
  case h_4 | h_5 | h_6 | h_7 | h_9 =>
    obtain ⟨_, -, h⟩ := Option.bind_eq_some_iff.mp h
    cases h
  case h_8 =>
    obtain ⟨_, -, h⟩ := Option.bind_eq_some_iff.mp h
    obtain ⟨_, -, h⟩ := Option.bind_eq_some_iff.mp h
    cases h
  all_goals cases h

/-- Alternatives stop where nothing follows, or a closing parenthesis. -/
theorem nextPiece?_eq_stop {items : List Written} (h : nextPiece? items cur = some (.stop, next)) :
    next = cur.skip ∧ (next.rest = [] ∨ ∃ rest, next.rest = ')' :: rest) := by
  unfold nextPiece? at h
  split at h
  · next hrest =>
    cases h
    exact ⟨rfl, .inl hrest⟩
  · next c rest hrest =>
    obtain ⟨rfl, rfl⟩ := pieceOf?_eq_stop h
    exact ⟨by rw [← hrest], .inr ⟨rest, rfl⟩⟩

theorem leaveGroup?_suffix {skips : Bool} (h : leaveGroup? skips cur = some next) :
    next.rest <:+ cur.rest := by
  unfold leaveGroup? at h
  split at h
  · next rest hrest =>
    cases h
    rw [hrest]
    exact List.suffix_cons _ _
  · cases h

/-- **Alternatives leave an end of what they are read from.** -/
theorem readAlternatives_suffix {done items : List Written} {w : Written}
    (h : readAlternatives n cur done items = some (w, next)) : next.rest <:+ cur.rest := by
  induction n generalizing cur next done items w with
  | zero => cases h
  | succ n ih =>
    rw [readAlternatives_succ] at h
    obtain ⟨⟨piece, behind⟩, hpiece, h⟩ := Option.bind_eq_some_iff.mp h
    cases piece with
    | stop =>
      cases h
      rw [(nextPiece?_eq_stop hpiece).1]
      exact skip_suffix cur
    | bar | items items' =>
      exact (ih h).trans (suffix_of_tail (nextPiece?_suffix_tail hpiece nofun) (List.suffix_refl _))
    | group changes =>
      obtain ⟨⟨body, inner⟩, hbody, h⟩ := Option.bind_eq_some_iff.mp h
      obtain ⟨behind', hleave, h⟩ := Option.bind_eq_some_iff.mp h
      exact (ih h).trans <| (leaveGroup?_suffix hleave).trans <| (ih hbody).trans <|
        suffix_of_tail (nextPiece?_suffix_tail hpiece nofun) (List.suffix_refl _)

/-- **More steps than characters are enough**: how many there are does not matter then. -/
theorem readAlternatives_eq_of_lt {n' : Nat} (hn : cur.rest.length < n)
    (hn' : cur.rest.length < n') (done items : List Written) :
    readAlternatives n cur done items = readAlternatives n' cur done items := by
  induction n generalizing cur n' done items with
  | zero => cases hn
  | succ n ih =>
    obtain ⟨n', rfl⟩ := Nat.exists_eq_add_one.mpr (Nat.zero_lt_of_lt hn')
    rw [readAlternatives_succ, readAlternatives_succ]
    refine Option.bind_congr fun ⟨piece, behind⟩ hpiece => ?_
    have hlt (hstop : piece ≠ .stop) : behind.rest.length < n ∧ behind.rest.length < n' := by
      have h := length_lt_of_nextPiece? hpiece hstop
      omega
    cases piece with
    | stop => rfl
    | bar | items items' => exact ih (hlt nofun).1 (hlt nofun).2 _ _
    | group changes =>
      dsimp only
      rw [ih (hlt nofun).1 (hlt nofun).2 [] []]
      refine Option.bind_congr fun ⟨body, inner⟩ hbody => ?_
      refine Option.bind_congr fun behind' hleave => ?_
      have hle := (leaveGroup?_suffix hleave).length_le.trans
        (readAlternatives_suffix hbody).length_le
      exact ih (hle.trans_lt (hlt nofun).1) (hle.trans_lt (hlt nofun).2) _ _

end KeyedSeries.PatternCursor

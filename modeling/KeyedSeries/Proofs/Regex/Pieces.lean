import KeyedSeries.Regex.Reader

/-!
# Patterns, piece by piece

The readers of a pattern go on from piece to piece: an item of an alternative, a bar, the start
of a group, an item of a class. This file tells them apart from what is done with a piece.
**Alternatives and classes are read piece by piece**
(`KeyedSeries.PatternCursor.readAlternatives_succ`,
`KeyedSeries.PatternCursor.readClassBody_succ`): what is true of all pieces then has one short
induction to be true of all that is read. Escapes, the start of a class and the bounds of a
repetition come apart in the same way (`KeyedSeries.PatternCursor.readEscape_cons`,
`KeyedSeries.PatternCursor.readClassStart_eq`, `KeyedSeries.PatternCursor.readBounds_eq`). A text
is a pattern if its alternatives are read to its end (`KeyedSeries.Written.read?_eq_some_iff`).
-/

namespace KeyedSeries

namespace PatternCursor

variable {cur : PatternCursor}

/-! ### Runs of characters -/

/-- Reads characters with a property into `taken`, at most `steps` of them. -/
def readWhile (p : Char → Bool) : Nat → PatternCursor → List Char → List Char × PatternCursor
  | 0, cur, taken => (taken.reverse, cur)
  | steps + 1, cur, taken =>
    match cur.rest with
    | c :: rest =>
      if p c then readWhile p steps (cur.moveTo rest) (c :: taken) else (taken.reverse, cur)
    | [] => (taken.reverse, cur)

theorem readDigits_eq (steps : Nat) (cur : PatternCursor) (digits : List Char) :
    readDigits steps cur digits = readWhile isDigit steps cur digits := by
  fun_induction readDigits steps cur digits <;> simp_all [readWhile]

theorem readBoundaryName_eq (steps : Nat) (cur : PatternCursor) (name : List Char) :
    readBoundaryName steps cur name = readWhile isBoundaryChar steps cur name := by
  fun_induction readBoundaryName steps cur name <;> simp_all [readWhile]

/-! ### Alternatives -/

/-- What stands next in alternatives. -/
inductive Piece where
  /-- The end of the alternatives. -/
  | stop
  /-- The bar before another alternative. -/
  | bar
  /-- An item or a sign of repetition: the items of the alternative with it, last first. -/
  | items (items : List Written)
  /-- A group, whose body follows. -/
  | group (changes : List (PatternFlag × Bool))

/-- The piece that a character starts, and the place behind it. -/
def pieceOf? (items : List Written) (c : Char) (cur : PatternCursor) :
    Option (Piece × PatternCursor) :=
  let copies (least : Nat) (most : Option Nat) := do
    let (w, before) ← repeatable items
    some (Piece.items (.times w least most :: before), { cur with rest := dropLazy cur.rest })
  match c with
  | ')' => some (.stop, { cur with rest := ')' :: cur.rest })
  | '|' => some (.bar, cur)
  | '(' => do
    let (opening, next) ← readOpening cur
    match opening with
    | .flags changes =>
      some (.items (.flags changes :: items),
        { next with skips := skipsAfter next.skips changes })
    | .group changes =>
      some (.group changes, { next with skips := skipsAfter next.skips changes })
  | '[' => do
    let (w, next) ← readClass cur
    some (.items (w :: items), next)
  | '?' => copies 0 (some 1)
  | '*' => copies 0 none
  | '+' => copies 1 none
  | '\x7b' => do
    let (w, before) ← repeatable items
    let (least, most, next) ← readBounds cur
    some (.items (.times w least most :: before), next)
  | '\\' => do
    let (e, next) ← readEscape cur
    some (.items (e.toWritten :: items), next)
  | '.' => some (.items (.dot :: items), cur)
  | '^' => some (.items (.anchor .caret :: items), cur)
  | '$' => some (.items (.anchor .dollar :: items), cur)
  | c => some (.items (.literal ⟨c, false⟩ :: items), cur)

/-- The next piece, and the place behind it. -/
def nextPiece? (items : List Written) (cur : PatternCursor) : Option (Piece × PatternCursor) :=
  match cur.skip.rest with
  | [] => some (.stop, cur.skip)
  | c :: rest => pieceOf? items c { cur.skip with rest := rest }

/-- The alternatives read so far. -/
def alternativesOf (done items : List Written) : Written :=
  match done with
  | [] => Written.ofItems items.reverse
  | _ => .alternatives (Written.ofItems items.reverse :: done).reverse

/-- Goes on behind the closing parenthesis of a group. -/
def leaveGroup? (skips : Bool) (cur : PatternCursor) : Option PatternCursor :=
  match cur.rest with
  | ')' :: rest => some { cur with rest := rest, skips := skips }
  | _ => none

/-- **Alternatives are read piece by piece.** -/
theorem readAlternatives_succ (steps : Nat) (cur : PatternCursor) (done items : List Written) :
    readAlternatives (steps + 1) cur done items =
      (nextPiece? items cur).bind fun (piece, next) =>
        match piece with
        | .stop => some (alternativesOf done items, next)
        | .bar => readAlternatives steps next (Written.ofItems items.reverse :: done) []
        | .items items => readAlternatives steps next done items
        | .group changes =>
          (readAlternatives steps next [] []).bind fun (body, inner) =>
            (leaveGroup? cur.skips inner).bind fun behind =>
              readAlternatives steps behind done (.group changes body :: items) := by
  rw [readAlternatives.eq_def]
  dsimp only
  generalize readAlternatives steps = again
  generalize hcur : cur.skip = start
  have hskips : cur.skips = start.skips := by rw [← hcur]; rfl
  obtain ⟨rest, skips, names⟩ := start
  rw [nextPiece?, hcur, hskips]
  cases rest with
  | nil => rfl
  | cons c rest =>
    dsimp only [pieceOf?]
    split
    case h_1 heq => cases heq
    case h_4 heq =>
      cases heq
      cases readOpening ⟨rest, skips, names⟩ with
      | none => rfl
      | some result =>
        obtain ⟨changes | changes, next⟩ := result
        · rfl
        · have hleave (body : Written) (inner : PatternCursor) :
              (match inner.rest with
                | ')' :: rest =>
                  again ⟨rest, skips, inner.names⟩ done (.group changes body :: items)
                | _ => none) =
                (leaveGroup? skips inner).bind fun behind =>
                  again behind done (.group changes body :: items) := by
            unfold leaveGroup?
            split <;> rfl
          exact congrArg (Option.bind (again _ [] [])) (funext fun p => hleave p.1 p.2)
    case h_5 heq => cases heq; cases readClass ⟨rest, skips, names⟩ <;> rfl
    case h_6 heq | h_7 heq | h_8 heq => cases heq; cases repeatable items <;> rfl
    case h_9 heq =>
      cases heq
      cases repeatable items with
      | none => rfl
      | some result => cases readBounds ⟨rest, skips, names⟩ <;> simp
    case h_10 heq => cases heq; cases readEscape ⟨rest, skips, names⟩ <;> rfl
    case h_14 heq => cases heq; simp only [Option.bind_some]
    all_goals next heq => cases heq; rfl

/-! ### Classes -/

/-- The sign that negates a class with a name, and what follows it. -/
def nameNegation : List Char → Bool × List Char
  | '^' :: rest => (true, rest)
  | rest => (false, rest)

/-- Reads what closes a class with a name. -/
def readClassNameEnd (negated : Bool) (name : List Char) (skips : Bool) (names : List String) :
    List Char → Option (WrittenClass × PatternCursor)
  | ':' :: ']' :: rest =>
    (NamedClass.ofName? (String.ofList name)).map fun k => (.named negated k, ⟨rest, skips, names⟩)
  | _ => none

/-- Reads the name of a class and what closes it. -/
def readClassName (negated : Bool) (skips : Bool) (names : List String) (l : List Char) :
    Option (WrittenClass × PatternCursor) :=
  readClassNameEnd negated (l.takeWhile (· != ':')) skips names (l.dropWhile (· != ':'))

theorem readNamedClass?_colon (rest : List Char) (skips : Bool) (names : List String) :
    readNamedClass? ⟨':' :: rest, skips, names⟩ =
      readClassName (nameNegation rest).1 skips names (nameNegation rest).2 := rfl

theorem readNamedClass?_of_ne {c : Char} (h : c ≠ ':') {rest : List Char} {skips : Bool}
    {names : List String} : readNamedClass? ⟨c :: rest, skips, names⟩ = none := by
  unfold readNamedClass?
  split
  · next hrest =>
    cases hrest
    exact absurd rfl h
  · rfl

/-- An item of a class that no dash follows. -/
def single? (first : Escape) (cur : PatternCursor) : Option (WrittenClass × PatternCursor) :=
  first.toClass?.map fun c => (c, cur)

/-- The characters from one item to another. -/
def rangeOf? (first second : Escape) (cur : PatternCursor) :
    Option (WrittenClass × PatternCursor) :=
  match first, second with
  | .char a, .char b => if a.char ≤ b.char then some (.range a b, cur) else none
  | _, _ => none

/-- Whether a dash before it stands for itself. -/
def endsRange : List Char → Bool
  | ']' :: _ | '-' :: _ => true
  | _ => false

/-- Reads what stands behind the first item, from a dash on. -/
def readRangeEnd (first : Escape) (cur : PatternCursor) : Option (WrittenClass × PatternCursor) :=
  match cur.rest with
  | [] => none
  | '-' :: rest =>
    if endsRange (cur.moveTo rest).rest then single? first cur
    else (cur.moveTo? rest).bind fun inner =>
      (readClassItem inner).bind fun (second, last) => rangeOf? first second last
  | _ => single? first cur

theorem readRangeEnd_of_ne (hnil : cur.rest ≠ [])
    (hdash : ∀ rest, cur.rest ≠ '-' :: rest) (first : Escape) :
    readRangeEnd first cur = single? first cur := by
  unfold readRangeEnd
  split
  · next hrest => exact absurd hrest hnil
  · next rest hrest => exact absurd hrest (hdash rest)
  · rfl

theorem readClassRange_eq (cur : PatternCursor) :
    readClassRange cur =
      (readClassItem cur).bind fun (first, next) => readRangeEnd first next.skip := by
  unfold readClassRange
  refine congrArg (Option.bind _) (funext fun p => ?_)
  obtain ⟨first, next⟩ := p
  have hsingle (cur : PatternCursor) :
      (first.toClass?.bind fun c => some (c, cur)) = single? first cur := by
    unfold single?
    cases first.toClass? <;> rfl
  dsimp only
  split
  · next hrest => simp only [readRangeEnd, hrest]
  · next rest hrest =>
    simp only [readRangeEnd, hrest]
    split
    · next hbracket =>
      rw [hbracket]
      exact hsingle next.skip
    · next hdash =>
      rw [hdash]
      exact hsingle next.skip
    · next hbracket hdash =>
      have hends : endsRange (next.skip.moveTo rest).rest = false := by
        unfold endsRange
        split
        · next hl => exact (hbracket _ hl).elim
        · next hl => exact (hdash _ hl).elim
        · rfl
      rw [hends]
      refine congrArg (Option.bind _) (funext fun inner => ?_)
      refine congrArg (Option.bind _) (funext fun q => ?_)
      obtain ⟨second, last⟩ := q
      cases first <;> cases second <;> rfl
  · next hnil hdash =>
    rw [readRangeEnd_of_ne hnil hdash]
    exact hsingle next.skip

/-- What stands next in a class. -/
inductive ClassPiece where
  /-- The closing bracket. -/
  | close
  /-- A set operation. -/
  | operate (k : ClassOp)
  /-- An item. -/
  | item (c : WrittenClass)
  /-- A class in brackets, whose other items follow. -/
  | bracket (negated : Bool) (first : List WrittenClass)

/-- The sign that stands next in a class, and what follows it. -/
def classSign? : List Char → Option (ClassPiece × List Char)
  | ']' :: rest => some (.close, rest)
  | '&' :: '&' :: rest => some (.operate .inter, rest)
  | '-' :: '-' :: rest => some (.operate .diff, rest)
  | '~' :: '~' :: rest => some (.operate .symmDiff, rest)
  | _ => none

/-- Reads the start of a class within a class, behind its opening bracket. -/
def readInnerClass (cur : PatternCursor) : Option (ClassPiece × PatternCursor) :=
  match readNamedClass? cur with
  | some (c, next) => some (.item c, next)
  | none => (readClassStart cur).map fun (negated, first, next) => (.bracket negated first, next)

/-- Reads a piece of a class that is no sign. -/
def readClassPiece (cur : PatternCursor) : Option (ClassPiece × PatternCursor) :=
  match cur.rest with
  | '[' :: rest => readInnerClass { cur with rest := rest }
  | _ => (readClassRange cur).map fun (c, next) => (.item c, next)

theorem readClassPiece_of_ne (h : ∀ rest, cur.rest ≠ '[' :: rest) :
    readClassPiece cur = (readClassRange cur).map fun (c, next) => (.item c, next) := by
  unfold readClassPiece
  split
  · next rest hrest => exact absurd hrest (h rest)
  · rfl

/-- The next piece of a class, and the place behind it. -/
def nextClassPiece? (cur : PatternCursor) : Option (ClassPiece × PatternCursor) :=
  match classSign? cur.skip.rest with
  | some (piece, rest) => some (piece, { cur.skip with rest := rest })
  | none => readClassPiece cur.skip

/-- **A class is read piece by piece.** -/
theorem readClassBody_succ (steps : Nat) (cur : PatternCursor) (pending : PendingOp)
    (items : List WrittenClass) :
    readClassBody (steps + 1) cur pending items =
      (nextClassPiece? cur).bind fun (piece, next) =>
        match piece with
        | .close => some (finishOp pending (classOf items.reverse), next)
        | .operate k =>
          readClassBody steps next (some (k, finishOp pending (classOf items.reverse))) []
        | .item c => readClassBody steps next pending (c :: items)
        | .bracket negated first =>
          (readClassBody steps next none first).bind fun (body, next) =>
            readClassBody steps next pending (.bracket negated body :: items) := by
  rw [readClassBody.eq_def, nextClassPiece?]
  dsimp only
  generalize readClassBody steps = again
  split
  case h_1 hrest =>
    have hsign : classSign? cur.skip.rest = none := by
      rw [hrest]
      rfl
    have hrange : readClassRange cur.skip = none := by
      rw [readClassRange_eq, readClassItem, hrest]
      rfl
    rw [hsign, readClassPiece_of_ne (by simp [hrest]), hrange]
    rfl
  case h_6 rest hrest =>
    have hsign : classSign? cur.skip.rest = none := by
      rw [hrest]
      rfl
    have hpiece : readClassPiece cur.skip = readInnerClass { cur.skip with rest := rest } := by
      simp only [readClassPiece, hrest]
    rw [hsign, hpiece, readInnerClass]
    cases readNamedClass? ⟨rest, cur.skip.skips, cur.skip.names⟩ with
    | some result => rfl
    | none => cases readClassStart ⟨rest, cur.skip.skips, cur.skip.names⟩ <;> rfl
  case h_7 hnil hclose hinter hdiff hsymm hopen =>
    have hsign : classSign? cur.skip.rest = none := by
      unfold classSign?
      split <;> simp_all
    rw [hsign, readClassPiece_of_ne hopen]
    cases readClassRange cur.skip <;> rfl
  all_goals next hrest => rw [hrest]; rfl

/-- Reads the sign that negates a class. -/
def readNegation (cur : PatternCursor) : Option (Bool × PatternCursor) :=
  match cur.rest with
  | '^' :: rest => (cur.moveTo? rest).map fun next => (true, next)
  | _ => some (false, cur)

theorem readNegation_of_ne (h : ∀ rest, cur.rest ≠ '^' :: rest) :
    readNegation cur = some (false, cur) := by
  unfold readNegation
  split
  · next rest hrest => exact absurd hrest (h rest)
  · rfl

/-- Reads a closing bracket that stands for itself, as the first item of a class. -/
def readFirstBracket (items : List WrittenClass) (cur : PatternCursor) :
    Option (List WrittenClass × PatternCursor) :=
  match items, cur.rest with
  | [], ']' :: rest => (cur.moveTo? rest).map fun next => ([.single ⟨']', false⟩], next)
  | _, _ => some (items, cur)

theorem readClassStart_eq (cur : PatternCursor) :
    readClassStart cur =
      (cur.moveTo? cur.rest).bind fun start =>
        (readNegation start).bind fun (negated, sign) =>
          (readLeadingDashes (sign.rest.length + 1) sign []).bind fun (items, dashes) =>
            (readFirstBracket items dashes).map fun (items, next) => (negated, items, next) := by
  have hbracket (negated : Bool) (items : List WrittenClass) (dashes : PatternCursor) :
      (match items, dashes.rest with
        | [], ']' :: rest => (dashes.moveTo? rest).bind fun next =>
          some (negated, [WrittenClass.single ⟨']', false⟩], next)
        | _, _ => some (negated, items, dashes)) =
      (readFirstBracket items dashes).map fun (items, next) => (negated, items, next) := by
    unfold readFirstBracket
    split
    · cases dashes.moveTo? _ <;> rfl
    · rfl
  have hbody (negated : Bool) (sign : PatternCursor) :=
    congrArg (Option.bind (readLeadingDashes (sign.rest.length + 1) sign []))
      (funext fun p => hbracket negated p.1 p.2)
  unfold readClassStart
  refine congrArg (Option.bind _) (funext fun start => ?_)
  dsimp only
  split
  · next rest hrest =>
    simp only [readNegation, hrest]
    cases start.moveTo? rest with
    | none => rfl
    | some sign => exact hbody true sign
  · next hne =>
    rw [readNegation_of_ne hne]
    exact hbody false start

/-! ### Escapes -/

/-- What kind of escape a character starts. -/
inductive EscapeKind where
  /-- A character given by so many hexadecimal digits. -/
  | hex (count : Nat)
  /-- The characters with a property. -/
  | property (negated : Bool)
  /-- The boundary of a word. -/
  | boundary
  /-- What the character stands for by itself, if it stands for anything. -/
  | alone (e? : Option Escape)

/-- The kind of escape that a character starts. -/
def escapeKind (c : Char) : EscapeKind :=
  match c with
  | 'x' => .hex 2
  | 'u' => .hex 4
  | 'U' => .hex 8
  | 'p' => .property false
  | 'P' => .property true
  | 'b' => .boundary
  | c => .alone ((readEscape ⟨[c], false, []⟩).map Prod.fst)

/-- **An escape is read by its kind.** -/
theorem readEscape_cons (c : Char) (rest : List Char) (skips : Bool) (names : List String) :
    readEscape ⟨c :: rest, skips, names⟩ =
      match escapeKind c with
      | .hex count =>
        (moveTo? ⟨rest, skips, names⟩ rest).bind fun inner =>
          (readHexChar count inner).bind fun (w, next) => some (.char w, next)
      | .property negated =>
        (moveTo? ⟨rest, skips, names⟩ rest).bind fun inner =>
          (readProperty negated inner).bind fun (negated, q, next) =>
            some (.property negated q, next)
      | .boundary =>
        (readBoundary ⟨rest, skips, names⟩).bind fun (a, next) => some (.anchor a, next)
      | .alone e? => e?.map fun e => (e, ⟨rest, skips, names⟩) := by
  unfold escapeKind
  by_cases hc : c ∈ ['x', 'u', 'U', 'p', 'P', 'b']
  · simp only [List.mem_cons, List.not_mem_nil, or_false] at hc
    rcases hc with rfl | rfl | rfl | rfl | rfl | rfl <;> rfl
  · simp only [List.mem_cons, List.not_mem_nil, or_false, not_or] at hc
    unfold readEscape
    dsimp only
    split <;> simp_all

theorem pos_of_escapeKind {c : Char} {count : Nat} (h : escapeKind c = .hex count) : 0 < count := by
  unfold escapeKind at h
  split at h <;> cases h <;> decide

theorem readHexChar_of_ne {c : Char} (h : c ≠ '\x7b') {rest : List Char} {skips : Bool}
    {names : List String} {count : Nat} :
    readHexChar count ⟨c :: rest, skips, names⟩ =
      (readHex count ⟨c :: rest, skips, names⟩ []).bind fun (d, next) =>
        some (⟨d, count == 2⟩, next) := by
  unfold readHexChar
  split
  · next hrest =>
    cases hrest
    exact absurd rfl h
  · rfl

/-- The boundary of a name, if it is the name of one. -/
def boundaryNamed? (name : List Char) : Option Anchor :=
  match String.ofList name with
  | "start" => some .wordStart
  | "end" => some .wordEnd
  | "start-half" => some .noWordBefore
  | "end-half" => some .noWordBehind
  | _ => none

/-- Reads the brace behind the name of a boundary. -/
def readBoundaryEnd (name : List Char) (cur : PatternCursor) : Option (Anchor × PatternCursor) :=
  match cur.rest with
  | '\x7d' :: rest => (boundaryNamed? name).map fun a => (a, { cur with rest := rest })
  | _ => none

/-- What stands in braces behind `\b` is the name of a boundary if it starts as one. -/
theorem readBoundary_brace (rest : List Char) (skips : Bool) (names : List String) :
    readBoundary ⟨'\x7b' :: rest, skips, names⟩ =
      (moveTo? ⟨rest, skips, names⟩ rest).bind fun inner =>
        inner.rest.head?.bind fun c =>
          if isBoundaryChar c then
            readBoundaryEnd (readBoundaryName inner.rest.length inner []).1
              (readBoundaryName inner.rest.length inner []).2
          else some (.boundary, ⟨'\x7b' :: rest, skips, names⟩) := by
  have hname (name : List Char) (cur : PatternCursor) :
      (match String.ofList name with
        | "start" => some (Anchor.wordStart, cur)
        | "end" => some (Anchor.wordEnd, cur)
        | "start-half" => some (Anchor.noWordBefore, cur)
        | "end-half" => some (Anchor.noWordBehind, cur)
        | _ => none) = (boundaryNamed? name).map fun a => (a, cur) := by
    unfold boundaryNamed?
    split <;> rfl
  refine congrArg (Option.bind _) (funext fun inner => ?_)
  split
  · next c l hl =>
    rw [hl, List.head?_cons, Option.bind_some]
    split
    · obtain ⟨name, _ | ⟨d, behind⟩, skips, names⟩ := readBoundaryName (c :: l).length inner []
      · rfl
      · by_cases hd : d = '\x7d'
        · subst hd
          exact hname name _
        · simp [readBoundaryEnd, hd]
    · rfl
  · next hl => rw [hl, List.head?_nil, Option.bind_none]

theorem readBoundary_of_ne (h : ∀ rest, cur.rest ≠ '\x7b' :: rest) :
    readBoundary cur = some (.boundary, cur) := by
  unfold readBoundary
  split
  · next rest hrest => exact absurd hrest (h rest)
  · rfl

/-! ### Bounds -/

/-- Reads the upper bound of a repetition, behind the comma; it may be missing. -/
def readMost (least : Nat) (cur : PatternCursor) : Option (Nat × Option Nat × PatternCursor) :=
  match cur.rest with
  | '\x7d' :: _ => some (least, none, cur)
  | _ => (readCount cur).1.join.map fun most => (least, some most, (readCount cur).2)

theorem readMost_of_ne (h : ∀ rest, cur.rest ≠ '\x7d' :: rest) (least : Nat) :
    readMost least cur =
      (readCount cur).1.join.map fun most => (least, some most, (readCount cur).2) := by
  unfold readMost
  split
  · next rest hrest => exact absurd hrest (h rest)
  · rfl

/-- Reads what stands behind the first number of a repetition. -/
def readUpperBound (first : Option (Option Nat)) (cur : PatternCursor) :
    Option (Nat × Option Nat × PatternCursor) :=
  match cur.rest with
  | ',' :: rest => (cur.moveTo? rest).bind fun next => first.join.bind fun n => readMost n next
  | _ => first.join.map fun n => (n, some n, cur)

/-- Reads the end of a repetition, from the closing brace on. -/
def readBoundsEnd (least : Nat) (most : Option Nat) (cur : PatternCursor) :
    Option (Nat × Option Nat × PatternCursor) :=
  match cur.rest with
  | '\x7d' :: rest =>
    let next := cur.moveTo rest
    if most.all (least ≤ ·) then some (least, most, { next with rest := dropLazy next.rest })
    else none
  | _ => none

theorem readUpperBound_of_ne (h : ∀ rest, cur.rest ≠ ',' :: rest)
    (first : Option (Option Nat)) :
    readUpperBound first cur = first.join.map fun n => (n, some n, cur) := by
  unfold readUpperBound
  split
  · next rest hrest => exact absurd hrest (h rest)
  · rfl

theorem readBounds_eq (cur : PatternCursor) :
    readBounds cur =
      (cur.moveTo? cur.rest).bind fun start =>
        (readUpperBound (readCount start).1 (readCount start).2).bind fun (least, most, next) =>
          readBoundsEnd least most next := by
  unfold readBounds
  refine congrArg (Option.bind _) (funext fun start => ?_)
  obtain ⟨first, number⟩ := readCount start
  dsimp only
  split
  · next rest hrest =>
    simp only [readUpperBound, hrest]
    cases number.moveTo? rest with
    | none => rfl
    | some inner =>
      cases first.join with
      | none => rfl
      | some least =>
        dsimp only [Option.bind_eq_bind, Option.bind_some]
        split
        · next hinner => simp only [readMost, hinner, readBoundsEnd, Option.bind_some]
        · next hne =>
          rw [readMost_of_ne hne]
          cases (readCount inner).1.join <;> rfl
  · next hne =>
    rw [readUpperBound_of_ne hne]
    cases first.join <;> rfl

/-! ### Groups -/

/-- Whether what stands behind the question mark starts a look-around. -/
def looksAround : List Char → Bool
  | '=' :: _ | '!' :: _ | '<' :: '=' :: _ | '<' :: '!' :: _ => true
  | _ => false

/-- The name of a group and what follows it, if what stands behind the question mark starts one. -/
def nameStart? : List Char → Option (List Char)
  | 'P' :: '<' :: rest | '<' :: rest => some rest
  | _ => none

/-- Reads what stands behind changes of flags. -/
def readFlagsEnd (changes : List (PatternFlag × Bool)) (off : Bool) (cur : PatternCursor) :
    Option (Opening × PatternCursor) :=
  match cur.rest with
  | ')' :: rest =>
    if changes.isEmpty && !off then none else some (.flags changes, { cur with rest := rest })
  | _ :: rest => some (.group changes, { cur with rest := rest })
  | [] => none

theorem readOpening_question {rest : List Char} (h : cur.skip.rest = '?' :: rest) :
    readOpening cur =
      if looksAround rest then none
      else match nameStart? rest with
        | some l =>
          (readName [] l).bind fun (name, rest) =>
            if cur.names.contains name then none
            else some (.group [], ⟨rest, cur.skips, name :: cur.names⟩)
        | none =>
          (readFlags false false [] rest).bind fun (changes, off, rest) =>
            readFlagsEnd changes off ⟨rest, cur.skips, cur.names⟩ := by
  unfold readOpening
  dsimp only
  rw [h]
  have hnames : cur.skip.names = cur.names := rfl
  have hskips : cur.skip.skips = cur.skips := rfl
  rw [hnames, hskips]
  split
  case h_6 hequal hbang heq =>
    cases heq
    simp_all [looksAround, nameStart?]
  case h_7 hequal hbang hequal' hbang' hname hname' heq =>
    cases heq
    have hlooks : looksAround rest = false := by
      unfold looksAround
      split <;> simp_all
    have hstart : nameStart? rest = none := by
      unfold nameStart?
      split <;> simp_all
    rw [hlooks, hstart]
    refine congrArg (Option.bind _) (funext fun p => ?_)
    obtain ⟨changes, off, l⟩ := p
    rfl
  case h_8 hne => exact absurd rfl (hne rest)
  all_goals next heq => cases heq; rfl

theorem readOpening_of_ne (h : ∀ rest, cur.skip.rest ≠ '?' :: rest) :
    readOpening cur = some (.group [], cur.skip) := by
  unfold readOpening
  dsimp only
  split
  all_goals first | rfl | next hrest => exact absurd hrest (h _)

end PatternCursor

/-! ### Whole patterns -/

namespace Written

/-- The expression that a text starts with, and the place where it stops. -/
def readTo? (pattern : String) : Option (Written × PatternCursor) :=
  PatternCursor.readAlternatives (pattern.toList.length + 1) ⟨pattern.toList, false, []⟩ [] []

/-- A pattern is read to its end. -/
theorem read?_eq_some_iff {pattern : String} {w : Written} :
    read? pattern = some w ↔
      ∃ cur, readTo? pattern = some (w, cur) ∧ cur.rest = [] ∧ w.depth ≤ nestLimit := by
  have hread : read? pattern = (readTo? pattern).bind fun x =>
      if x.2.rest.isEmpty && x.1.depth ≤ nestLimit then some x.1 else none := rfl
  rw [hread, Option.bind_eq_some_iff]
  constructor
  · rintro ⟨⟨w', cur⟩, hto, h⟩
    dsimp only at h
    split at h
    · next hend =>
      cases h
      rw [Bool.and_eq_true, List.isEmpty_iff, decide_eq_true_eq] at hend
      exact ⟨cur, hto, hend⟩
    · cases h
  · rintro ⟨cur, hto, hrest, hdepth⟩
    exact ⟨(w, cur), hto, by simp [hrest, hdepth]⟩

end Written

end KeyedSeries

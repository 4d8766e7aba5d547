import KeyedSeries.Proofs.Regex.Enclosed
import KeyedSeries.Series.Glob
import KeyedSeries.Text.Pieces

/-!
# Globs as patterns

A glob stands for a pattern (`KeyedSeries.Glob.pattern`): it is cut at its stars, every piece is
escaped, and between every two pieces the pattern takes any characters but line breaks. Whatever
the pieces hold, the pattern can be read (`KeyedSeries.Glob.read?_pattern`), and what it finds from
a place on is what the rest of the glob matches there
(`KeyedSeries.Glob.matches_regexOf_iff`).

**A glob matches the texts that are its pieces with a gap at every star**
(`KeyedSeries.Glob.isMatch_iff_fill`). A gap may be empty and may hold any characters, those that
separate the segments of a path or mean something in a pattern among them, but no line break: a
series with a line break in its path is not found by the globs that should find it
(`KeyedSeries.Glob.not_accepts_lineBreak`).
-/

namespace KeyedSeries.Glob

open PatternCursor

/-! ### Pieces and gaps -/

/-- Pieces with a gap behind each of them but the last one. -/
def fill : (parts gaps : List (List Char)) → List Char
  | p :: ps, gap :: gaps => p ++ (gap ++ fill ps gaps)
  | p :: _, [] => p
  | [], _ => []

theorem fill_cons_head (c : Char) (p : List Char) (ps gaps : List (List Char)) :
    fill ((c :: p) :: ps) gaps = c :: fill (p :: ps) gaps := by
  cases gaps <;> rfl

theorem matches_nil_iff {t : List Char} : Matches [] t ↔ t = [] := by
  constructor
  · rintro ⟨⟩
    rfl
  · rintro rfl
    exact .nil

/-- A star matches a gap. -/
theorem matches_star_iff_gap {p t : List Char} :
    Matches (star :: p) t ↔ ∃ gap u, lineBreak ∉ gap ∧ t = gap ++ u ∧ Matches p u := by
  constructor
  · intro h
    induction t with
    | nil =>
      rcases matches_star_iff.mp h with h | ⟨_, _, heq, -⟩
      · exact ⟨[], [], List.not_mem_nil, rfl, h⟩
      · cases heq
    | cons c t ih =>
      rcases matches_star_iff.mp h with h | ⟨_, _, heq, hc, h⟩
      · exact ⟨[], c :: t, List.not_mem_nil, rfl, h⟩
      · cases heq
        obtain ⟨gap, u, hgap, rfl, hu⟩ := ih h
        exact ⟨c :: gap, u, List.not_mem_cons_of_ne_of_not_mem (Ne.symm hc) hgap, rfl, hu⟩
  · rintro ⟨gap, u, hgap, rfl, hu⟩
    induction gap with
    | nil => exact .none hu
    | cons c gap ih =>
      rw [List.mem_cons, not_or] at hgap
      exact .more (Ne.symm hgap.1) (ih hgap.2)

/-- **A glob matches its pieces with a gap for every star.** -/
theorem matches_iff_fill {p t : List Char} :
    Matches p t ↔ ∃ gaps : List (List Char), gaps.length = p.count star ∧
      (∀ gap ∈ gaps, lineBreak ∉ gap) ∧ fill (pieces star p) gaps = t := by
  induction p generalizing t with
  | nil =>
    constructor
    · rintro ⟨⟩
      exact ⟨[], rfl, List.forall_mem_nil _, rfl⟩
    · rintro ⟨gaps, hlength, -, rfl⟩
      rw [List.length_eq_zero_iff.mp hlength]
      exact .nil
  | cons c p ih =>
    by_cases hc : c = star
    · subst hc
      rw [matches_star_iff_gap, pieces, if_pos rfl, List.count_cons_self]
      constructor
      · rintro ⟨gap, u, hgap, rfl, hu⟩
        obtain ⟨gaps, hlength, hgaps, rfl⟩ := ih.mp hu
        exact ⟨gap :: gaps, congrArg (· + 1) hlength, List.forall_mem_cons.mpr ⟨hgap, hgaps⟩, rfl⟩
      · rintro ⟨gaps, hlength, hgaps, rfl⟩
        cases gaps with
        | nil => cases hlength
        | cons gap gaps =>
          obtain ⟨hgap, hgaps⟩ := List.forall_mem_cons.mp hgaps
          exact ⟨gap, _, hgap, rfl, ih.mpr ⟨gaps, Nat.succ.inj hlength, hgaps, rfl⟩⟩
    · -- A letter belongs to the first piece.
      rw [matches_letter_iff hc, List.count_cons_of_ne hc, pieces, if_neg hc]
      cases hpieces : pieces star p with
      | nil => exact absurd hpieces (pieces_ne_nil star p)
      | cons q qs =>
        rw [hpieces] at ih
        simp only [fill_cons_head]
        constructor
        · rintro ⟨u, rfl, hu⟩
          obtain ⟨gaps, hlength, hgaps, rfl⟩ := ih.mp hu
          exact ⟨gaps, hlength, hgaps, rfl⟩
        · rintro ⟨gaps, hlength, hgaps, rfl⟩
          exact ⟨_, rfl, ih.mpr ⟨gaps, hlength, hgaps, rfl⟩⟩

/-! ### The pattern of a glob -/

/-- The characters that mean something else than themselves somewhere in a pattern. -/
def specials : List Char :=
  ['\\', '.', '+', '*', '?', '(', ')', '|', '[', ']', '\x7b', '\x7d', '^', '$', '#', '&', '-', '~']

/-- A character as it is written in a pattern to mean itself. -/
def escape (c : Char) : List Char := if c ∈ specials then ['\\', c] else [c]

/-- The pattern of a glob. -/
def pattern (glob : String) : String :=
  String.ofList ('^' :: (List.intercalate ['.', '*']
    ((pieces star glob.toList).map (·.flatMap escape)) ++ ['$']))

/-- A character of a glob as it is written in the pattern. -/
def written (c : Char) : List Char := if c = star then ['.', '*'] else escape c

theorem intercalate_cons_append (a b : List Char) (l : List (List Char)) (sep : List Char) :
    List.intercalate sep ((a ++ b) :: l) = a ++ List.intercalate sep (b :: l) := by
  cases l <;> simp [List.intercalate, List.append_assoc]

/-- The pattern is written character by character. -/
theorem toList_pattern (glob : String) :
    (pattern glob).toList = '^' :: (glob.toList.flatMap written ++ ['$']) := by
  have hbody (t : List Char) :
      List.intercalate ['.', '*'] ((pieces star t).map (·.flatMap escape)) =
      t.flatMap written := by
    induction t with
    | nil => rfl
    | cons c t ih =>
      rw [List.flatMap_cons, ← ih, pieces, written]
      cases hpieces : pieces star t with
      | nil => exact absurd hpieces (pieces_ne_nil star t)
      | cons q qs =>
        by_cases hc : c = star
        · rw [if_pos hc, if_pos hc]
          rfl
        · rw [if_neg hc, if_neg hc, List.map_cons, List.flatMap_cons, intercalate_cons_append]
          rfl
  rw [pattern, String.toList_ofList, hbody]

/-! ### Reading the pattern -/

/-- What is read of a character of a glob. -/
def itemOf (c : Char) : Written := if c = star then .times .dot 0 none else .literal ⟨c, false⟩

variable {items : List Written} {names : List String}

/-- A character that means nothing else is read as itself. -/
theorem nextPiece?_of_notMem {c : Char} (hc : c ∉ specials) (rest : List Char) :
    nextPiece? items ⟨c :: rest, false, names⟩ =
      some (.items (.literal ⟨c, false⟩ :: items), ⟨rest, false, names⟩) := by
  simp only [specials, List.mem_cons, List.not_mem_nil, or_false, not_or] at hc
  show pieceOf? items c ⟨rest, false, names⟩ = _
  unfold pieceOf?
  dsimp only
  split <;> simp_all

/-- So is any other one behind a backslash. -/
theorem nextPiece?_escaped {c : Char} (hc : c ∈ specials) (rest : List Char) :
    nextPiece? items ⟨'\\' :: c :: rest, false, names⟩ =
      some (.items (.literal ⟨c, false⟩ :: items), ⟨rest, false, names⟩) := by
  have hescape : readEscape ⟨c :: rest, false, names⟩ =
      some (.char ⟨c, false⟩, ⟨rest, false, names⟩) := by
    simp only [specials, List.mem_cons, List.not_mem_nil, or_false] at hc
    rcases hc with rfl | rfl | rfl | rfl | rfl | rfl | rfl | rfl | rfl | rfl | rfl | rfl | rfl |
      rfl | rfl | rfl | rfl | rfl <;> rfl
  show (readEscape ⟨c :: rest, false, names⟩).bind _ = _
  rw [hescape]
  rfl

/-- A letter of a glob is one piece of the pattern. -/
theorem nextPiece?_escape (c : Char) (rest : List Char) :
    nextPiece? items ⟨escape c ++ rest, false, names⟩ =
      some (.items (.literal ⟨c, false⟩ :: items), ⟨rest, false, names⟩) := by
  unfold escape
  split
  · next hc => exact nextPiece?_escaped hc rest
  · next hc => exact nextPiece?_of_notMem hc rest

/-- What is written of a glob does not start with the sign that would change a repetition before
it. -/
theorem dropLazy_written (t : List Char) :
    dropLazy (t.flatMap written ++ ['$']) = t.flatMap written ++ ['$'] := by
  have hne : ∀ rest, t.flatMap written ++ ['$'] ≠ '?' :: rest := by
    intro rest h
    cases t with
    | nil => cases h
    | cons c t =>
      rw [List.flatMap_cons, written, escape] at h
      split at h
      · cases h
      · split at h
        · cases h
        · next hc =>
          cases h
          exact hc (by decide)
  unfold dropLazy
  split
  · next rest h => exact absurd h (hne rest)
  · rfl

/-- **What is written of a glob is read character by character.** -/
theorem readAlternatives_written (t : List Char) {n : Nat}
    (hn : (t.flatMap written).length + 1 < n) (items : List Written) :
    readAlternatives n ⟨t.flatMap written ++ ['$'], false, []⟩ [] items =
      some (alternativesOf [] (.anchor .dollar :: ((t.map itemOf).reverse ++ items)),
        ⟨[], false, []⟩) := by
  induction t generalizing n items with
  | nil =>
    obtain ⟨n, rfl⟩ : ∃ k, n = k + 2 := ⟨n - 2, by simp at hn; omega⟩
    rw [readAlternatives_succ]
    show readAlternatives (n + 1) ⟨[], false, []⟩ [] (.anchor .dollar :: items) = _
    rw [readAlternatives_succ]
    rfl
  | cons c t ih =>
    have hitems : (((c :: t).map itemOf).reverse ++ items) =
        (t.map itemOf).reverse ++ itemOf c :: items := by simp
    rw [List.flatMap_cons, List.length_append] at hn
    rw [List.flatMap_cons, List.append_assoc, hitems]
    by_cases hc : c = star
    · -- A star is written as a dot and a sign of repetition, which are two pieces.
      have hwritten : written c = ['.', '*'] := if_pos hc
      have hitem : itemOf c = .times .dot 0 none := if_pos hc
      rw [hwritten] at hn ⊢
      obtain ⟨n, rfl⟩ : ∃ k, n = k + 2 := ⟨n - 2, by omega⟩
      rw [readAlternatives_succ]
      show readAlternatives (n + 1) ⟨'*' :: (t.flatMap written ++ ['$']), false, []⟩ []
        (.dot :: items) = _
      rw [readAlternatives_succ]
      show readAlternatives n ⟨dropLazy (t.flatMap written ++ ['$']), false, []⟩ []
        (.times .dot 0 none :: items) = _
      rw [dropLazy_written, hitem]
      exact ih (by simp only [List.length_cons, List.length_nil] at hn; omega) _
    · have hwritten : written c = escape c := if_neg hc
      have hitem : itemOf c = .literal ⟨c, false⟩ := if_neg hc
      have hpos : 0 < (escape c).length := by
        unfold escape
        split <;> simp
      rw [hwritten] at hn ⊢
      obtain ⟨n, rfl⟩ : ∃ k, n = k + 1 := ⟨n - 1, by omega⟩
      rw [readAlternatives_succ, nextPiece?_escape, Option.bind_some, hitem]
      exact ih (by omega) _

/-- What is read of the pattern: the items of the glob between the start and the end of the
text. -/
def expression (t : List Char) : Written :=
  .concat (.anchor .caret :: (t.map itemOf ++ [.anchor .dollar]))

theorem depth_expression (t : List Char) : (expression t).depth ≤ 2 := by
  have hitem (c : Char) : (itemOf c).depth ≤ 1 := by
    unfold itemOf
    split <;> simp [Written.depth]
  have hitems : Written.depth.depths (t.map itemOf ++ [.anchor .dollar]) ≤ 1 := by
    induction t with
    | nil => decide
    | cons c t ih => exact Nat.max_le.mpr ⟨hitem c, ih⟩
  simp only [expression, Written.depth, Written.depth.depths]
  omega

/-- **The pattern of a glob can be read**, whatever the glob holds. -/
theorem read?_pattern (glob : String) :
    Written.read? (pattern glob) = some (expression glob.toList) := by
  refine Written.read?_eq_some_iff.mpr ⟨⟨[], false, []⟩, ?_, rfl, ?_⟩
  · rw [Written.readTo?, toList_pattern, List.length_cons, readAlternatives_succ]
    show readAlternatives _ ⟨glob.toList.flatMap written ++ ['$'], false, []⟩ []
      [.anchor .caret] = _
    rw [readAlternatives_written _ (by simp)]
    have halternatives : alternativesOf []
        (.anchor .dollar :: ((glob.toList.map itemOf).reverse ++ [.anchor .caret])) =
          expression glob.toList := by
      rw [alternativesOf, List.reverse_cons, List.reverse_append, List.reverse_reverse]
      unfold Written.ofItems expression
      split <;> simp_all
    rw [halternatives]
  · exact (depth_expression _).trans (by decide)

/-! ### What the pattern finds -/

/-- The expression that the rest of a glob stands for. -/
def regexOf : List Char → Regex
  | [] => .seq (.look .textEnd) .empty
  | c :: t =>
    .seq (if c = star then .times (.chars (CharSet.singleton lineBreak).complement) 0 none
      else .chars (.singleton c)) (regexOf t)

theorem meaning?_expression (t : List Char) :
    (expression t).meaning? .start = some (.seq (.look .textStart) (regexOf t), .start) := by
  have hitems : Written.inTurn? .start (t.map itemOf ++ [.anchor .dollar]) =
      some (regexOf t, .start) := by
    induction t with
    | nil => rfl
    | cons c t ih =>
      have hitem : (itemOf c).meaning? .start = some (if c = star then
          .times (.chars (CharSet.singleton lineBreak).complement) 0 none
            else .chars (.singleton c), .start) := by
        unfold itemOf
        split <;> rfl
      rw [List.map_cons, List.cons_append, Written.inTurn?, hitem]
      simp only [Option.bind_eq_bind, Option.bind_some, ih]
      rfl
  have hcaret : (Written.anchor .caret).meaning? .start =
      some (.look .textStart, FlagState.start) := rfl
  rw [expression, Written.meaning?, Written.inTurn?, hcaret]
  simp only [Option.bind_eq_bind, Option.bind_some, hitems]

theorem contains_singleton {a c : Char} : (CharSet.singleton a).contains c = true ↔ c = a := by
  have htoNat : a.toNat = c.toNat ↔ c = a := by rw [eq_comm, Char.toNat_inj]
  rw [← htoNat, CharSet.contains, CharSet.hasCode]
  simp [CharSet.singleton]
  omega

theorem contains_noLineBreak {c : Char} :
    (CharSet.singleton lineBreak).complement.contains c = true ↔ c ≠ lineBreak := by
  have hspans : (CharSet.singleton lineBreak).complement = ⟨[⟨0, 9⟩, ⟨11, 0x10ffff⟩]⟩ := by decide
  have htoNat : c = lineBreak ↔ c.toNat = 10 := by rw [← Char.toNat_inj]; rfl
  have hlast : c.toNat < 0x110000 := by
    rcases c.valid with h | h
    · exact h.trans (by decide)
    · exact h.2
  rw [hspans, CharSet.contains, CharSet.hasCode, Ne, htoNat]
  simp
  omega

variable {text : Array Char} {i j : Nat}

/-- What an expression finds behind any characters but line breaks is found at once, or behind
one such character more. -/
theorem matches_gap_iff {r : Regex} :
    (Regex.seq (.times (.chars (CharSet.singleton lineBreak).complement) 0 none) r).Matches
        text i j ↔
      r.Matches text i j ∨ ∃ c, text[i]? = some c ∧ c ≠ lineBreak ∧
        (Regex.seq (.times (.chars (CharSet.singleton lineBreak).complement) 0 none) r).Matches
          text (i + 1) j := by
  constructor
  · rintro ⟨k, ⟨n, -, -, hsteps⟩, hr⟩
    cases n with
    | zero =>
      obtain rfl : i = k := hsteps
      exact .inl hr
    | succ n =>
      obtain ⟨_, ⟨rfl, c, hc, hcontains⟩, hsteps⟩ := hsteps
      exact .inr ⟨c, hc, contains_noLineBreak.mp hcontains, k,
        ⟨n, Nat.zero_le n, nofun, hsteps⟩, hr⟩
  · rintro (hr | ⟨c, hc, hne, k, ⟨n, -, -, hsteps⟩, hr⟩)
    · exact ⟨i, ⟨0, Nat.le_refl 0, nofun, rfl⟩, hr⟩
    · exact ⟨k, ⟨n + 1, Nat.zero_le _, nofun, i + 1,
        ⟨rfl, c, hc, contains_noLineBreak.mpr hne⟩, hsteps⟩, hr⟩

theorem drop_eq_cons_iff {c : Char} {u : List Char} :
    text.toList.drop i = c :: u ↔ text[i]? = some c ∧ text.toList.drop (i + 1) = u := by
  rw [← Array.getElem?_toList]
  by_cases hi : i < text.toList.length
  · rw [List.drop_eq_getElem_cons hi, List.getElem?_eq_getElem hi, List.cons.injEq,
      Option.some.injEq]
  · rw [List.drop_eq_nil_of_le (Nat.le_of_not_lt hi),
      List.getElem?_eq_none (Nat.le_of_not_lt hi)]
    simp

theorem succ_le_size {c : Char} (h : text[i]? = some c) : i + 1 ≤ text.size :=
  (Array.getElem?_eq_some_iff.mp h).1

/-- What is found behind the characters that a star takes, is what the star and the rest of the
glob match. -/
theorem matches_gap_iff_star {r : Regex} {t : List Char}
    (hr : ∀ i ≤ text.size, r.Matches text i j ↔ j = text.size ∧ Matches t (text.toList.drop i))
    (hi : i ≤ text.size) :
    (Regex.seq (.times (.chars (CharSet.singleton lineBreak).complement) 0 none) r).Matches
        text i j ↔
      j = text.size ∧ Matches (star :: t) (text.toList.drop i) := by
  -- Both sides go on to the next character in the same way, up to the end of the text.
  induction hleft : text.size - i generalizing i with
  | zero =>
    obtain rfl : i = text.size := by omega
    rw [matches_gap_iff, hr _ hi, matches_star_iff]
    simp [drop_eq_cons_iff]
  | succ n ih =>
    rw [matches_gap_iff, hr _ hi, matches_star_iff, and_or_left]
    refine or_congr_right ⟨?_, ?_⟩
    · rintro ⟨c, hc, hne, h⟩
      obtain ⟨hj, hmatch⟩ := (ih (succ_le_size hc) (by omega)).mp h
      exact ⟨hj, c, _, drop_eq_cons_iff.mpr ⟨hc, rfl⟩, hne, hmatch⟩
    · rintro ⟨hj, c, u, hdrop, hne, hmatch⟩
      obtain ⟨hc, rfl⟩ := drop_eq_cons_iff.mp hdrop
      exact ⟨c, hc, hne, (ih (succ_le_size hc) (by omega)).mpr ⟨hj, hmatch⟩⟩

/-- **What the expression finds from a place of a text on** is what the rest of the glob matches
there, up to the end of the text. -/
theorem matches_regexOf_iff {t : List Char} (hi : i ≤ text.size) :
    (regexOf t).Matches text i j ↔ j = text.size ∧ Matches t (text.toList.drop i) := by
  induction t generalizing i with
  | nil =>
    have hend : text[i]?.isNone = true ↔ i = text.size := by
      rw [Option.isNone_iff_eq_none, Array.getElem?_eq_none_iff]
      omega
    have hnil : Matches [] (text.toList.drop i) ↔ i = text.size := by
      rw [matches_nil_iff, List.drop_eq_nil_iff, Array.length_toList]
      omega
    rw [hnil]
    constructor
    · rintro ⟨_, ⟨rfl, hlook⟩, rfl⟩
      exact ⟨hend.mp hlook, hend.mp hlook⟩
    · rintro ⟨rfl, rfl⟩
      exact ⟨_, ⟨rfl, hend.mpr rfl⟩, rfl⟩
  | cons c t ih =>
    rw [regexOf]
    split
    · next hc =>
      subst hc
      exact matches_gap_iff_star (fun i hi => ih hi) hi
    · next hc =>
      rw [matches_letter_iff hc]
      constructor
      · rintro ⟨_, ⟨rfl, a, ha, hcontains⟩, hrest⟩
        obtain rfl := contains_singleton.mp hcontains
        obtain ⟨rfl, hmatch⟩ := (ih (succ_le_size ha)).mp hrest
        exact ⟨rfl, _, drop_eq_cons_iff.mpr ⟨ha, rfl⟩, hmatch⟩
      · rintro ⟨rfl, u, hdrop, hmatch⟩
        obtain ⟨ha, rfl⟩ := drop_eq_cons_iff.mp hdrop
        exact ⟨i + 1, ⟨rfl, c, ha, contains_singleton.mpr rfl⟩,
          (ih (succ_le_size ha)).mpr ⟨rfl, hmatch⟩⟩

theorem inOrder_regexOf (t : List Char) : (regexOf t).InOrder := by
  induction t with
  | nil => exact ⟨trivial, trivial⟩
  | cons c t ih =>
    rw [regexOf]
    split
    · exact ⟨⟨trivial, nofun⟩, ih⟩
    · exact ⟨trivial, ih⟩

/-- The pattern of a glob stands for an expression, and a text is found to match it just if the
glob matches the text. -/
theorem ofPattern?_pattern (glob : String) :
    ∃ r, Regex.ofPattern? (pattern glob) = some r ∧
      ∀ text : String, r.isMatch text = true ↔ Matches glob.toList text.toList := by
  refine ⟨.seq (.look .textStart) (regexOf glob.toList), ?_, fun text => ?_⟩
  · exact Regex.ofPattern?_eq_some_iff.mpr ⟨rfl, Regex.ofSyntax?_eq_some_iff.mpr
      ⟨_, _, read?_pattern glob, meaning?_expression glob.toList⟩⟩
  · have hinOrder : (Regex.seq (.look .textStart) (regexOf glob.toList)).InOrder :=
      ⟨trivial, inOrder_regexOf _⟩
    have hstart (j : Nat) : (regexOf glob.toList).Matches text.toList.toArray 0 j ↔
        j = text.toList.length ∧ Matches glob.toList text.toList :=
      matches_regexOf_iff (Nat.zero_le _)
    rw [Regex.isMatch_iff hinOrder]
    constructor
    · rintro ⟨i, hi, j, _, ⟨rfl, hlook⟩, hrest⟩
      have hlook : (Regex.charBefore text.toList.toArray i).isNone = true := hlook
      obtain rfl := (Regex.charBefore_eq_none_iff hi).mp (Option.isNone_iff_eq_none.mp hlook)
      exact ((hstart j).mp hrest).2
    · intro h
      exact ⟨0, Nat.zero_le _, _, 0, ⟨rfl, rfl⟩, (hstart _).mpr ⟨rfl, h⟩⟩

/-- **A glob is a pattern that can always be read, and it matches the texts that are its pieces
with a gap at every star.** What the pattern finds is what the engine takes the glob to match. A
gap may be empty, and whatever characters may stand in it but line breaks; everything else in the
glob stands for itself, be it a special character of patterns or not. -/
theorem isMatch_iff_fill (glob : String) :
    ∃ r, Regex.ofPattern? (pattern glob) = some r ∧ ∀ text : String,
      r.isMatch text = accepts glob text ∧
        (r.isMatch text = true ↔ ∃ gaps : List (List Char),
          gaps.length = glob.toList.count star ∧ (∀ gap ∈ gaps, lineBreak ∉ gap) ∧
            fill (pieces star glob.toList) gaps = text.toList) := by
  obtain ⟨r, hr, hmatch⟩ := ofPattern?_pattern glob
  refine ⟨r, hr, fun text => ⟨?_, ?_⟩⟩
  · rw [Bool.eq_iff_iff, hmatch, accepts_iff]
  · rw [hmatch, matches_iff_fill]

/-- **No star stands for a line break**, although the text is made of the pieces of the glob with
the line break between them. -/
theorem not_accepts_lineBreak :
    fill (pieces star "a*b".toList) [['\n']] = "a\nb".toList ∧
      accepts "a*b" "a\nb" = false ∧
      ¬ ∀ glob text : String, accepts glob text = true ↔ ∃ gaps : List (List Char),
        gaps.length = glob.toList.count star ∧
          fill (pieces star glob.toList) gaps = text.toList := by
  have hfill : fill (pieces star "a*b".toList) [['\n']] = "a\nb".toList := by decide
  have haccepts : accepts "a*b" "a\nb" = false := by decide
  refine ⟨hfill, haccepts, fun h => ?_⟩
  have hmatch := (h "a*b" "a\nb").mpr ⟨[['\n']], by decide, hfill⟩
  rw [haccepts] at hmatch
  cases hmatch

end KeyedSeries.Glob

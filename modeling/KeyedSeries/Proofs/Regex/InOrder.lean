import KeyedSeries.Regex.Meaning
import KeyedSeries.Proofs.Regex.Pieces
import KeyedSeries.Proofs.Regex.Search

/-!
# Repetitions of patterns are in order

No pattern asks for more copies than it allows: the reader refuses bounds such as those of
`a\x7b3,2\x7d`. **Whatever a pattern stands for is in order**
(`KeyedSeries.Regex.inOrder_of_ofSyntax?`), and so the search for it finds what it matches. The
reader keeps it from piece to piece (`KeyedSeries.PatternCursor.inOrder_of_nextPiece?`), and giving
the flags their meaning leaves the bounds as they are (`KeyedSeries.Written.inOrder_of_meaning?`).
-/

namespace KeyedSeries

/-! ### Written expressions -/

namespace Written

/-- No repetition is bounded by fewer copies than it needs. -/
def InOrder : Written → Prop
  | empty | flags _ | literal _ | dot | anchor _ | letter _ _ | property _ _ | bracket _ _ => True
  | times body least most => body.InOrder ∧ ∀ m, most = some m → least ≤ m
  | group _ body => body.InOrder
  | concat items => AllInOrder items
  | alternatives items => AllInOrder items
where
  /-- No repetition of a list is. -/
  AllInOrder : List Written → Prop
    | [] => True
    | w :: rest => w.InOrder ∧ AllInOrder rest

theorem allInOrder_iff {items : List Written} :
    InOrder.AllInOrder items ↔ ∀ w ∈ items, w.InOrder := by
  induction items with
  | nil => simp [InOrder.AllInOrder]
  | cons w rest ih => rw [InOrder.AllInOrder, ih, List.forall_mem_cons]

theorem inOrder_ofItems {items : List Written} (h : ∀ w ∈ items, w.InOrder) :
    (ofItems items).InOrder := by
  unfold ofItems
  split
  · trivial
  · exact h _ (List.mem_singleton.mpr rfl)
  · exact allInOrder_iff.mpr h

end Written

/-! ### The reader -/

namespace PatternCursor

open Written

variable {cur next : PatternCursor} {items : List Written}

/-- The bounds of a repetition are read in order. -/
theorem le_of_readBounds {least : Nat} {most : Option Nat}
    (h : readBounds cur = some (least, most, next)) : ∀ m, most = some m → least ≤ m := by
  rw [readBounds_eq] at h
  obtain ⟨start, -, h⟩ := Option.bind_eq_some_iff.mp h
  obtain ⟨⟨least', most', last⟩, -, h⟩ := Option.bind_eq_some_iff.mp h
  unfold readBoundsEnd at h
  dsimp only at h
  split at h
  · split at h
    · next hle =>
      cases h
      rintro m rfl
      simpa using hle
    · cases h
  · cases h

theorem inOrder_of_readClass {w : Written} (h : readClass cur = some (w, next)) : w.InOrder := by
  obtain ⟨_, -, h⟩ := Option.bind_eq_some_iff.mp h
  obtain ⟨_, -, h⟩ := Option.bind_eq_some_iff.mp h
  cases h
  trivial

theorem inOrder_toWritten (e : Escape) : e.toWritten.InOrder := by
  cases e <;> trivial

/-- What is repeated is the last item. -/
theorem eq_cons_of_repeatable {w : Written} {before : List Written}
    (h : repeatable items = some (w, before)) : items = w :: before := by
  unfold repeatable at h
  split at h <;> cases h
  rfl

/-- **A piece keeps items in order.** -/
theorem inOrder_of_pieceOf? {c : Char} {items' : List Written} (hitems : ∀ w ∈ items, w.InOrder)
    (h : pieceOf? items c cur = some (.items items', next)) : ∀ w ∈ items', w.InOrder := by
  have hcons {w : Written} (hw : w.InOrder) : ∀ x ∈ w :: items, x.InOrder :=
    List.forall_mem_cons.mpr ⟨hw, hitems⟩
  have hcopies {w : Written} {before : List Written} {least : Nat} {most : Option Nat}
      (hrepeat : repeatable items = some (w, before)) (hle : ∀ m, most = some m → least ≤ m) :
      ∀ x ∈ times w least most :: before, x.InOrder := by
    rw [eq_cons_of_repeatable hrepeat] at hitems
    obtain ⟨hw, hbefore⟩ := List.forall_mem_cons.mp hitems
    exact List.forall_mem_cons.mpr ⟨⟨hw, hle⟩, hbefore⟩
  unfold pieceOf? at h
  dsimp only at h
  split at h
  case h_3 =>
    obtain ⟨⟨opening, last⟩, -, h⟩ := Option.bind_eq_some_iff.mp h
    cases opening with
    | flags changes =>
      cases h
      exact hcons trivial
    | group changes => cases h
  case h_4 =>
    obtain ⟨⟨w, last⟩, hclass, hresult⟩ := Option.bind_eq_some_iff.mp h
    cases hresult
    exact hcons (inOrder_of_readClass hclass)
  case h_5 =>
    obtain ⟨⟨w, before⟩, hrepeat, hresult⟩ := Option.bind_eq_some_iff.mp h
    cases hresult
    refine hcopies hrepeat ?_
    rintro m ⟨⟩
    exact Nat.zero_le _
  case h_6 | h_7 =>
    obtain ⟨⟨w, before⟩, hrepeat, hresult⟩ := Option.bind_eq_some_iff.mp h
    cases hresult
    exact hcopies hrepeat nofun
  case h_8 =>
    obtain ⟨⟨w, before⟩, hrepeat, h⟩ := Option.bind_eq_some_iff.mp h
    obtain ⟨⟨least, most, last⟩, hbounds, hresult⟩ := Option.bind_eq_some_iff.mp h
    cases hresult
    exact hcopies hrepeat (le_of_readBounds hbounds)
  case h_9 =>
    obtain ⟨⟨e, last⟩, -, hresult⟩ := Option.bind_eq_some_iff.mp h
    cases hresult
    exact hcons (inOrder_toWritten e)
  all_goals
    cases h
    try exact hcons trivial

theorem inOrder_of_nextPiece? {items' : List Written} (hitems : ∀ w ∈ items, w.InOrder)
    (h : nextPiece? items cur = some (.items items', next)) : ∀ w ∈ items', w.InOrder := by
  unfold nextPiece? at h
  split at h
  · cases h
  · exact inOrder_of_pieceOf? hitems h

theorem inOrder_alternativesOf {done : List Written} (hdone : ∀ w ∈ done, w.InOrder)
    (hitems : ∀ w ∈ items, w.InOrder) : (alternativesOf done items).InOrder := by
  have hlast : (ofItems items.reverse).InOrder :=
    inOrder_ofItems fun w hw => hitems w (List.mem_reverse.mp hw)
  unfold alternativesOf
  split
  · exact hlast
  · refine allInOrder_iff.mpr fun w hw => ?_
    rcases List.mem_cons.mp (List.mem_reverse.mp hw) with rfl | hw
    · exact hlast
    · exact hdone w hw

/-- **Alternatives are read in order.** -/
theorem inOrder_of_readAlternatives {n : Nat} {done : List Written} {w : Written}
    (hdone : ∀ w ∈ done, w.InOrder) (hitems : ∀ w ∈ items, w.InOrder)
    (h : readAlternatives n cur done items = some (w, next)) : w.InOrder := by
  induction n generalizing cur next done items w with
  | zero => cases h
  | succ n ih =>
    rw [readAlternatives_succ] at h
    obtain ⟨⟨piece, behind⟩, hpiece, h⟩ := Option.bind_eq_some_iff.mp h
    cases piece with
    | stop =>
      cases h
      exact inOrder_alternativesOf hdone hitems
    | bar =>
      have hlast : (ofItems items.reverse).InOrder :=
        inOrder_ofItems fun w hw => hitems w (List.mem_reverse.mp hw)
      exact ih (List.forall_mem_cons.mpr ⟨hlast, hdone⟩) (List.forall_mem_nil _) h
    | items items' => exact ih hdone (inOrder_of_nextPiece? hitems hpiece) h
    | group changes =>
      obtain ⟨⟨body, inner⟩, hbody, h⟩ := Option.bind_eq_some_iff.mp h
      obtain ⟨behind', -, h⟩ := Option.bind_eq_some_iff.mp h
      have hgroup : body.InOrder := ih (List.forall_mem_nil _) (List.forall_mem_nil _) hbody
      refine ih hdone (List.forall_mem_cons.mpr ⟨?_, hitems⟩) h
      exact hgroup

end PatternCursor

/-! ### Meanings -/

theorem Written.inOrder_of_read? {pattern : String} {w : Written} (h : read? pattern = some w) :
    w.InOrder := by
  obtain ⟨cur, hto, -⟩ := read?_eq_some_iff.mp h
  exact PatternCursor.inOrder_of_readAlternatives (List.forall_mem_nil _) (List.forall_mem_nil _)
    hto

namespace Written

mutual

theorem inOrder_of_meaning? [PatternLibrary] {w : Written} {s s' : FlagState} {r : Regex}
    (hw : w.InOrder) (h : w.meaning? s = some (r, s')) : r.InOrder := by
  cases w with
  | empty | flags changes | anchor a =>
    cases h
    trivial
  | literal c =>
    obtain ⟨r', hliteral, hresult⟩ := Option.map_eq_some_iff.mp h
    cases hresult
    unfold FlagState.literal? at hliteral
    split at hliteral <;> cases hliteral
    trivial
  | dot =>
    obtain ⟨r', hdot, hresult⟩ := Option.map_eq_some_iff.mp h
    cases hresult
    unfold FlagState.dot? at hdot
    repeat' split at hdot
    all_goals cases hdot
    all_goals trivial
  | letter negated k | property negated q =>
    obtain ⟨set, -, hresult⟩ := Option.map_eq_some_iff.mp h
    cases hresult
    trivial
  | bracket negated body =>
    obtain ⟨set, -, h⟩ := Option.bind_eq_some_iff.mp h
    obtain ⟨_, -, hresult⟩ := Option.bind_eq_some_iff.mp h
    cases hresult
    trivial
  | times body least most =>
    obtain ⟨⟨r', s''⟩, hbody, hresult⟩ := Option.bind_eq_some_iff.mp h
    cases hresult
    exact ⟨inOrder_of_meaning? hw.1 hbody, hw.2⟩
  | group changes body =>
    obtain ⟨⟨r', s''⟩, hbody, hresult⟩ := Option.bind_eq_some_iff.mp h
    cases hresult
    have hw : body.InOrder := hw
    exact inOrder_of_meaning? hw hbody
  | concat items => exact inOrder_of_inTurn? hw h
  | alternatives items => exact inOrder_of_oneOf? hw h

theorem inOrder_of_inTurn? [PatternLibrary] {items : List Written} {s s' : FlagState} {r : Regex}
    (hitems : InOrder.AllInOrder items) (h : inTurn? s items = some (r, s')) : r.InOrder := by
  cases items with
  | nil =>
    cases h
    trivial
  | cons w rest =>
    obtain ⟨⟨first, s₁⟩, hfirst, h⟩ := Option.bind_eq_some_iff.mp h
    obtain ⟨⟨others, s₂⟩, hothers, hresult⟩ := Option.bind_eq_some_iff.mp h
    cases hresult
    exact ⟨inOrder_of_meaning? hitems.1 hfirst, inOrder_of_inTurn? hitems.2 hothers⟩

theorem inOrder_of_oneOf? [PatternLibrary] {items : List Written} {s s' : FlagState} {r : Regex}
    (hitems : InOrder.AllInOrder items) (h : oneOf? s items = some (r, s')) : r.InOrder := by
  cases items with
  | nil =>
    cases h
    trivial
  | cons w rest =>
    obtain ⟨⟨first, s₁⟩, hfirst, h⟩ := Option.bind_eq_some_iff.mp h
    obtain ⟨⟨others, s₂⟩, hothers, hresult⟩ := Option.bind_eq_some_iff.mp h
    cases hresult
    exact ⟨inOrder_of_meaning? hitems.1 hfirst, inOrder_of_oneOf? hitems.2 hothers⟩

end

end Written

namespace Regex

variable [PatternLibrary] {pattern : String} {r : Regex}

theorem ofSyntax?_eq_some_iff :
    ofSyntax? pattern = some r ↔
      ∃ w s, Written.read? pattern = some w ∧ w.meaning? .start = some (r, s) := by
  constructor
  · intro h
    obtain ⟨w, hread, h⟩ := Option.bind_eq_some_iff.mp h
    obtain ⟨⟨_, s⟩, hmeaning, hresult⟩ := Option.bind_eq_some_iff.mp h
    cases hresult
    exact ⟨w, s, hread, hmeaning⟩
  · rintro ⟨w, s, hread, hmeaning⟩
    exact Option.bind_eq_some_iff.mpr ⟨w, hread, Option.bind_eq_some_iff.mpr ⟨_, hmeaning, rfl⟩⟩

theorem ofPattern?_eq_some_iff :
    ofPattern? pattern = some r ↔
      PatternLibrary.isSmall pattern = true ∧ ofSyntax? pattern = some r := by
  rw [ofPattern?]
  split
  · next hsmall => simp [hsmall]
  · next hlarge => simp [hlarge]

/-- **The repetitions of a pattern are in order.** -/
theorem inOrder_of_ofSyntax? (h : ofSyntax? pattern = some r) : r.InOrder := by
  obtain ⟨w, s, hread, hmeaning⟩ := ofSyntax?_eq_some_iff.mp h
  exact Written.inOrder_of_meaning? (Written.inOrder_of_read? hread) hmeaning

end Regex

end KeyedSeries

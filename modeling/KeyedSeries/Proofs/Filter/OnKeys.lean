import KeyedSeries.Proofs.Filter.Reach

/-!
# Filters on keys

A filter may be made of comparisons of the key alone. Such a filter looks at no value of a
row (`KeyedSeries.Filter.OnKeys.accepts_eq`), and **its ranges hold the keys that it accepts and
no others** (`KeyedSeries.Filter.anyContains_ranges_iff`), apart from the largest number. No
range of a filter is empty, and so **there are no ranges at all if and only if no key is
accepted** (`KeyedSeries.Filter.ranges_eq_nil_iff`). What holds of the ranges of every filter is
put together in `KeyedSeries.Filter.reach_covers`.
-/

namespace KeyedSeries.Filter

open KeyRange

/-! ### Filters on keys -/

/-- A filter that is made of comparisons of the key, other than those with a pattern. -/
inductive OnKeys : Filter → Prop
  /-- The key compares with another one. -/
  | key {c : Comparison} (k : Key) (h : c ≠ .like) : OnKeys (.key c k)
  /-- Every row is accepted, or none. -/
  | const (b : Bool) : OnKeys (.const b)
  /-- All filters of a list accept the row. -/
  | and {fs : List Filter} (h : ∀ f ∈ fs, OnKeys f) : OnKeys (.and fs)
  /-- Some filter of a list accepts the row. -/
  | or {fs : List Filter} (h : ∀ f ∈ fs, OnKeys f) : OnKeys (.or fs)

/-- Whether a filter accepts a row with a key that has no values. -/
def acceptsKey (f : Filter) (k : Key) : Bool := f.accepts ⟨k, fun _ => none⟩

variable {f : Filter}

/-- The values of a row are not looked at. -/
theorem OnKeys.accepts_eq (h : f.OnKeys) (row : FilterRow) :
    f.accepts row = f.acceptsKey row.key := by
  unfold acceptsKey
  induction h with
  | key k _ => rfl
  | const b => rfl
  | and _ ih =>
    rw [accepts_and, accepts_and, Bool.eq_iff_iff, List.all_eq_true, List.all_eq_true]
    exact forall₂_congr fun f hf => by rw [ih f hf]
  | or _ ih =>
    rw [accepts_or, accepts_or, Bool.eq_iff_iff, List.any_eq_true, List.any_eq_true]
    exact exists_congr fun f => and_congr_right fun hf => by rw [ih f hf]

/-- **The ranges hold the keys that are accepted**, and no others. -/
theorem anyContains_ranges_iff (h : f.OnKeys) {k : Key} :
    anyContains f.ranges k = true ↔ k < Key.top ∧ f.acceptsKey k = true := by
  refine ⟨fun hk => ⟨lt_top_of_anyContains hk, ?_⟩,
    fun hk => @anyContains_ranges_of_accepts f ⟨k, fun _ => none⟩ hk.1 hk.2⟩
  unfold acceptsKey
  induction h with
  | key j hlike =>
    rw [ranges] at hk
    exact (anyContains_keyRanges.mp hk).2.resolve_left hlike
  | const b =>
    cases b with
    | true => rfl
    | false => cases hk
  | and _ ih =>
    rw [ranges, anyContains_commonRanges, Bool.and_eq_true, List.all_eq_true] at hk
    rw [accepts_and, List.all_eq_true]
    exact fun f hf => ih f hf (hk.2 f hf)
  | or _ ih =>
    rw [ranges, anyContains_normalize, anyContains_allRanges, List.any_eq_true] at hk
    obtain ⟨f, hf, hk⟩ := hk
    rw [accepts_or, List.any_eq_true]
    exact ⟨f, hf, ih f hf hk⟩

/-- **There are no ranges** if and only if no key is accepted. -/
theorem ranges_eq_nil_iff (h : f.OnKeys) :
    f.ranges = [] ↔ ∀ k, k < Key.top → f.acceptsKey k = false := by
  constructor
  · intro hnil k hk
    rw [Bool.eq_false_iff]
    intro haccepts
    have hreached := (anyContains_ranges_iff h).mpr ⟨hk, haccepts⟩
    rw [hnil] at hreached
    cases hreached
  · intro hnone
    rw [List.eq_nil_iff_forall_not_mem]
    intro r hr
    -- The first key of a range would be accepted.
    have hreached : anyContains f.ranges r.start = true :=
      anyContains_iff.mpr ⟨r, hr, contains_start ((canonical_ranges f).1 r hr)⟩
    obtain ⟨htop, haccepts⟩ := (anyContains_ranges_iff h).mp hreached
    rw [hnone r.start htop] at haccepts
    cases haccepts

/-! ### Sound, exact and canonical -/

/-- **What a filter reaches.** Some range holds the key of every row that the filter
accepts; if the filter is made of comparisons of the key, a range holds a key exactly
if the filter accepts it; and the ranges go up, none of them empty, with a gap between
any two. -/
theorem reach_covers (f : Filter) :
    (∀ row : FilterRow, row.key ≤ Key.last → f.accepts row = true →
        ∃ r ∈ reach (some f), r.contains row.key = true) ∧
      (f.OnKeys → ∀ row : FilterRow, row.key ≤ Key.last →
        ((∃ r ∈ reach (some f), r.contains row.key = true) ↔ f.accepts row = true)) ∧
      Canonical (reach (some f)) := by
  have hstorable : ∀ {k : Key}, k ≤ Key.last → k < Key.top := fun h =>
    Int64.lt_of_le_of_lt h (by decide)
  refine ⟨fun row hkey hrow => ?_, fun hkeys row hkey => ?_, canonical_ranges f⟩
  · exact anyContains_iff.mp (anyContains_ranges_of_accepts (hstorable hkey) hrow)
  · have hexact := @anyContains_ranges_iff f hkeys row.key
    rw [and_iff_right (hstorable hkey), anyContains_iff] at hexact
    rwa [hkeys.accepts_eq row]

/-- A filter on keys that reaches both ends of a gap: the keys from 3 on that are
smaller than 5, and the largest one. -/
def onTwoEnds : Filter := .and [.key .ge 3, .or [.key .lt 5, .key .gt (Key.last - 1)]]

theorem reach_covers_onTwoEnds :
    onTwoEnds.OnKeys ∧ onTwoEnds.accepts ⟨Key.last, fun _ => none⟩ = true ∧
      (∃ r ∈ reach (some onTwoEnds), r.contains Key.last = true) ∧
      (¬∃ r ∈ reach (some onTwoEnds), r.contains 5 = true) ∧
      Canonical (reach (some onTwoEnds)) := by
  have hends : OnKeys (.or [.key .lt 5, .key .gt (Key.last - 1)]) :=
    .or (List.forall_mem_cons.mpr
      ⟨.key _ (by decide), List.forall_mem_singleton.mpr (.key _ (by decide))⟩)
  have hkeys : onTwoEnds.OnKeys :=
    .and (List.forall_mem_cons.mpr ⟨.key _ (by decide), List.forall_mem_singleton.mpr hends⟩)
  obtain ⟨hsound, hexact, hcanonical⟩ := reach_covers onTwoEnds
  have hlast : onTwoEnds.accepts ⟨Key.last, fun _ => none⟩ = true := by decide +kernel
  refine ⟨hkeys, hlast, hsound ⟨Key.last, fun _ => none⟩ (by decide) hlast, ?_, hcanonical⟩
  rw [hexact hkeys ⟨5, fun _ => none⟩ (by decide)]
  decide +kernel

end KeyedSeries.Filter

import KeyedSeries.Filter.Reach
import KeyedSeries.Proofs.Filter.Conjuncts
import KeyedSeries.Proofs.KeyRange

/-!
# The keys of accepted rows are reached

The ranges that a filter yields hold the keys of all rows that it accepts
(`KeyedSeries.Filter.anyContains_ranges_of_accepts`). Only the largest number,
which is no key of a series, no range holds at all
(`KeyedSeries.KeyRange.lt_top_of_anyContains`). At every level the ranges stay a
canonical list (`KeyedSeries.Filter.canonical_ranges`).
-/

namespace KeyedSeries.Filter

open KeyRange

/-- **The ranges of a comparison** hold the keys that compare as asked, and all
keys where the comparison says nothing about order. -/
theorem anyContains_keyRanges {c : Comparison} {k j : Key} :
    anyContains (keyRanges c k) j = true ↔
      j < Key.top ∧ (c = .like ∨ c.holds (compare j k) = true) := by
  unfold keyRanges
  rw [anyContains_normalize]
  have hfirst := Key.first_le j
  by_cases hj : j < Key.top
  · have hnext := Key.next_le_iff (k := k) hj
    have hnext' := Key.lt_next_iff (k := k) hj
    cases c <;>
      simp only [anyContains_cons, anyContains_nil, Bool.or_false, Bool.or_eq_true, contains_iff,
        point, full, Comparison.holds, beq_iff_eq, bne_iff_ne, hj, true_and, hnext, hnext',
        and_true, hfirst, reduceCtorEq, false_or, true_or, ne_eq, Std.compare_eq_iff_eq,
        Std.compare_eq_lt, Std.compare_eq_gt] <;>
      grind
  · -- No range stops behind the largest number.
    exact ⟨fun h => absurd (lt_top_of_anyContains h) hj, fun h => absurd h.1 hj⟩

theorem anyContains_allRanges (fs : List Filter) (k : Key) :
    anyContains (allRanges fs) k = fs.any fun f => anyContains f.ranges k := by
  induction fs with
  | nil => rfl
  | cons f rest ih => rw [allRanges, anyContains_append, ih, List.any_cons]

theorem anyContains_commonRanges (reached : List KeyRange) (fs : List Filter) (k : Key) :
    anyContains (commonRanges reached fs) k =
      (anyContains reached k && fs.all fun f => anyContains f.ranges k) := by
  induction fs generalizing reached with
  | nil => rw [commonRanges, List.all_nil, Bool.and_true]
  | cons f rest ih =>
    rw [commonRanges, ih, anyContains_intersectAll, List.all_cons, Bool.and_assoc]

/-- **The keys of accepted rows are reached.** -/
theorem anyContains_ranges_of_accepts {f : Filter} {row : FilterRow} (hkey : row.key < Key.top)
    (h : f.accepts row = true) : anyContains f.ranges row.key = true := by
  induction f using inductionBelow with
  | key c k =>
    rw [accepts_key] at h
    rw [ranges]
    exact anyContains_keyRanges.mpr ⟨hkey, .inr h⟩
  | const b =>
    cases b with
    | true =>
      rw [ranges]
      exact anyContains_full.mpr hkey
    | false => simp at h
  | cell path c v | cells left c right | not f _ =>
    rw [ranges]
    exact anyContains_full.mpr hkey
  | and fs ih =>
    rw [accepts_and, List.all_eq_true] at h
    rw [ranges, anyContains_commonRanges, Bool.and_eq_true, List.all_eq_true]
    exact ⟨anyContains_full.mpr hkey, fun f hf => ih f hf (h f hf)⟩
  | or fs ih =>
    rw [accepts_or, List.any_eq_true] at h
    obtain ⟨f, hf, hrow⟩ := h
    rw [ranges, anyContains_normalize, anyContains_allRanges, List.any_eq_true]
    exact ⟨f, hf, ih f hf hrow⟩

/-! ### Canonical lists -/

theorem canonical_full : Canonical [full] := ⟨by decide, List.pairwise_singleton ..⟩

theorem canonical_commonRanges {reached : List KeyRange} (fs : List Filter)
    (h : Canonical reached) : Canonical (commonRanges reached fs) := by
  induction fs generalizing reached with
  | nil => exact h
  | cons f rest ih =>
    rw [commonRanges]
    exact ih (canonical_normalize _)

/-- **The ranges of a filter are canonical**: none is empty, and each stops strictly
before the next one starts. -/
theorem canonical_ranges (f : Filter) : Canonical f.ranges := by
  cases f with
  | key c k =>
    rw [ranges]
    exact canonical_normalize _
  | const b =>
    cases b with
    | true => exact canonical_full
    | false => exact ⟨List.forall_mem_nil _, .nil⟩
  | and fs =>
    rw [ranges]
    exact canonical_commonRanges fs canonical_full
  | or fs =>
    rw [ranges]
    exact canonical_normalize _
  | cell | cells | not => exact canonical_full

end KeyedSeries.Filter

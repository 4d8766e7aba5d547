import KeyedSeries.KeyRange

/-!
# Which keys lists of ranges cover

Nothing that is done to lists of ranges is about the ranges; it is about the keys
they cover. Bringing a list into its canonical form covers the same keys
(`KeyedSeries.KeyRange.anyContains_normalize`), and the overlap of two lists the
keys that both cover (`KeyedSeries.KeyRange.anyContains_intersectAll`). The form
itself is canonical: no range is empty, and any two have a gap between them
(`KeyedSeries.KeyRange.canonical_normalize`). **There is only one such list for the
keys that are covered** (`KeyedSeries.KeyRange.Canonical.eq_of_anyContains`), and so
two lists cover the same keys just if they have the same form
(`KeyedSeries.KeyRange.normalize_eq_iff`).
-/

namespace KeyedSeries

/-! ### Keys -/

theorem Key.max_eq (a b : Key) : max a b = if a ≤ b then b else a := rfl

theorem Key.min_eq (a b : Key) : min a b = if a ≤ b then a else b := rfl

theorem Key.first_le (k : Key) : Key.first ≤ k := Int64.minValue_le k

theorem Key.le_top (k : Key) : k ≤ Key.top := Int64.le_maxValue k

/-- Among keys that a series can store, those from the next key on are the larger
ones. -/
theorem Key.next_le_iff {j k : Key} (h : j < Key.top) : k.next ≤ j ↔ k < j := by
  unfold Key.next
  split
  · grind
  · next hk =>
    have := Key.le_top k
    unfold Key.top at *
    grind

/-- Among keys that a series can store, those before the next key are not larger. -/
theorem Key.lt_next_iff {j k : Key} (h : j < Key.top) : j < k.next ↔ j ≤ k := by
  rw [← Int64.not_le, Key.next_le_iff h, Int64.not_lt]

namespace KeyRange

/-! ### One range -/

theorem contains_iff {r : KeyRange} {k : Key} : r.contains k = true ↔ r.start ≤ k ∧ k < r.stop := by
  rw [contains, Bool.and_eq_true, decide_eq_true_iff, decide_eq_true_iff]

/-- A range that holds a key is not empty. -/
theorem not_isEmpty_of_contains {r : KeyRange} {k : Key} (h : r.contains k = true) :
    r.isEmpty = false := by
  obtain ⟨hstart, hstop⟩ := contains_iff.mp h
  rw [isEmpty, decide_eq_false_iff_not, Int64.not_le]
  exact Int64.lt_of_le_of_lt hstart hstop

theorem contains_full {k : Key} : full.contains k = true ↔ k < Key.top := by
  rw [contains_iff]
  exact and_iff_right (Key.first_le k)

theorem contains_meet (a b : KeyRange) (k : Key) :
    (a.meet b).contains k = (a.contains k && b.contains k) := by
  rw [Bool.eq_iff_iff, Bool.and_eq_true, contains_iff, contains_iff, contains_iff, meet,
    Key.max_eq, Key.min_eq]
  constructor
  · rintro ⟨hstart, hstop⟩
    split at hstart <;> split at hstop <;> grind
  · rintro ⟨⟨ha, ha'⟩, hb, hb'⟩
    simp only
    constructor
    · split <;> assumption
    · split <;> assumption

/-! ### Lists of ranges -/

theorem anyContains_iff {rs : List KeyRange} {k : Key} :
    anyContains rs k = true ↔ ∃ r ∈ rs, r.contains k = true := List.any_eq_true

@[simp] theorem anyContains_nil (k : Key) : anyContains [] k = false := rfl

@[simp] theorem anyContains_cons (r : KeyRange) (rs : List KeyRange) (k : Key) :
    anyContains (r :: rs) k = (r.contains k || anyContains rs k) := List.any_cons

@[simp] theorem anyContains_append (rs ss : List KeyRange) (k : Key) :
    anyContains (rs ++ ss) k = (anyContains rs k || anyContains ss k) := List.any_append

theorem anyContains_full {k : Key} : anyContains [full] k = true ↔ k < Key.top := by
  rw [anyContains_cons, anyContains_nil, Bool.or_false, contains_full]

/-- No range stops behind the largest number, and so none holds it. -/
theorem lt_top_of_anyContains {rs : List KeyRange} {k : Key} (h : anyContains rs k = true) :
    k < Key.top := by
  obtain ⟨r, -, hr⟩ := anyContains_iff.mp h
  exact Int64.lt_of_lt_of_le (contains_iff.mp hr).2 (Key.le_top _)

/-! ### Canonical lists -/

theorem mem_place {r s : KeyRange} {rs : List KeyRange} : s ∈ place r rs ↔ s = r ∨ s ∈ rs := by
  induction rs with
  | nil => rw [place, List.mem_singleton]; simp
  | cons r' rest ih =>
    rw [place]
    split
    · exact List.mem_cons
    · rw [List.mem_cons, ih, List.mem_cons]
      exact or_left_comm

theorem mem_sort {s : KeyRange} {rs : List KeyRange} : s ∈ sort rs ↔ s ∈ rs := by
  induction rs with
  | nil => rfl
  | cons r rest ih => rw [sort, List.foldr_cons, mem_place, List.mem_cons, ← ih, sort]

/-- What is not placed before a range does not start after it. -/
theorem start_le_of_not_precedes {r r' : KeyRange} (h : ¬r.precedes r' = true) :
    r'.start ≤ r.start := by
  simp only [precedes, Bool.or_eq_true, decide_eq_true_eq, Bool.and_eq_true, beq_iff_eq,
    not_or] at h
  exact Int64.not_lt.mp h.1

theorem start_le_of_precedes {r r' : KeyRange} (h : r.precedes r' = true) :
    r.start ≤ r'.start := by
  simp only [precedes, Bool.or_eq_true, decide_eq_true_eq, Bool.and_eq_true, beq_iff_eq] at h
  rcases h with h | ⟨h, -⟩
  · exact Int64.le_of_lt h
  · exact h ▸ Int64.le_refl _

/-- Placing a range keeps the starts in order. -/
theorem pairwise_place {r : KeyRange} {rs : List KeyRange}
    (h : rs.Pairwise fun a b => a.start ≤ b.start) :
    (place r rs).Pairwise fun a b => a.start ≤ b.start := by
  induction rs with
  | nil => exact List.pairwise_singleton ..
  | cons r' rest ih =>
    obtain ⟨hr', hrest⟩ := List.pairwise_cons.mp h
    rw [place]
    split
    · next hp =>
      have hle := start_le_of_precedes hp
      refine List.pairwise_cons.mpr ⟨fun s hs => ?_, h⟩
      rcases List.mem_cons.mp hs with rfl | hs
      · exact hle
      · exact Int64.le_trans hle (hr' s hs)
    · next hp =>
      refine List.pairwise_cons.mpr ⟨fun s hs => ?_, ih hrest⟩
      rcases mem_place.mp hs with rfl | hs
      · exact start_le_of_not_precedes hp
      · exact hr' s hs

theorem pairwise_sort (rs : List KeyRange) : (sort rs).Pairwise fun a b => a.start ≤ b.start := by
  induction rs with
  | nil => exact .nil
  | cons r rest ih => exact pairwise_place ih

/-- No range that is sorted to be joined is empty. -/
theorem start_lt_stop_of_mem_sort {rs : List KeyRange} :
    ∀ r ∈ sort (rs.filter fun r => !r.isEmpty), r.start < r.stop := by
  intro r hr
  have hfull := (List.mem_filter.mp (mem_sort.mp hr)).2
  rw [Bool.not_eq_true', isEmpty, decide_eq_false_iff_not] at hfull
  exact Int64.not_le.mp hfull

/-- To join the first two of some ranges leaves these in the order of their starts. -/
theorem pairwise_joined {a b : KeyRange} {rest : List KeyRange}
    (h : (a :: b :: rest).Pairwise fun a b => a.start ≤ b.start) (stop : Key) :
    ((⟨a.start, stop⟩ : KeyRange) :: rest).Pairwise fun a b => a.start ≤ b.start := by
  obtain ⟨ha, hbehind⟩ := List.pairwise_cons.mp h
  exact List.pairwise_cons.mpr
    ⟨fun r hr => ha r (List.mem_cons_of_mem _ hr), (List.pairwise_cons.mp hbehind).2⟩

theorem start_lt_max {a : KeyRange} (h : a.start < a.stop) (stop : Key) :
    a.start < max a.stop stop := by
  rw [Key.max_eq]
  split <;> grind

/-- Joining ranges that overlap or touch covers no further key, as long as they go
by their starts. -/
theorem anyContains_absorb {current : KeyRange} {rs : List KeyRange} (k : Key)
    (h : (current :: rs).Pairwise fun a b => a.start ≤ b.start)
    (hne : ∀ r ∈ current :: rs, r.start < r.stop) :
    anyContains (absorb current rs) k = anyContains (current :: rs) k := by
  induction rs generalizing current with
  | nil => rfl
  | cons r rest ih =>
    obtain ⟨hcurrent, hrs⟩ := List.pairwise_cons.mp h
    obtain ⟨hcne, hrsne⟩ := List.forall_mem_cons.mp hne
    obtain ⟨hrne, hrestne⟩ := List.forall_mem_cons.mp hrsne
    have hle := hcurrent r List.mem_cons_self
    rw [absorb]
    split
    · next htouch =>
      -- The two ranges have no gap between them, and so their union is a range.
      have hunion : contains ⟨current.start, max current.stop r.stop⟩ k =
          (current.contains k || r.contains k) := by
        rw [Bool.eq_iff_iff, Bool.or_eq_true, contains_iff, contains_iff, contains_iff, Key.max_eq]
        simp only
        split <;> grind
      rw [ih (pairwise_joined h _) (List.forall_mem_cons.mpr ⟨start_lt_max hcne _, hrestne⟩),
        anyContains_cons, anyContains_cons, anyContains_cons, hunion, Bool.or_assoc]
    · rw [anyContains_cons, ih hrs hrsne, anyContains_cons current]

/-- **The canonical list covers the same keys.** -/
@[simp] theorem anyContains_normalize (rs : List KeyRange) (k : Key) :
    anyContains (normalize rs) k = anyContains rs k := by
  have hsorted : anyContains (sort (rs.filter fun r => !r.isEmpty)) k = anyContains rs k := by
    rw [Bool.eq_iff_iff, anyContains_iff, anyContains_iff]
    constructor
    · rintro ⟨r, hr, hk⟩
      exact ⟨r, (List.mem_filter.mp (mem_sort.mp hr)).1, hk⟩
    · rintro ⟨r, hr, hk⟩
      exact ⟨r, mem_sort.mpr (List.mem_filter.mpr
        ⟨hr, by rw [not_isEmpty_of_contains hk]; rfl⟩), hk⟩
  have hne : ∀ r ∈ sort (rs.filter fun r => !r.isEmpty), r.start < r.stop :=
    start_lt_stop_of_mem_sort
  -- Sorted, and without the empty ones, the ranges may be joined from the left.
  have hpairwise := pairwise_sort (rs.filter fun r => !r.isEmpty)
  rw [normalize, ← hsorted]
  cases hs : sort (rs.filter fun r => !r.isEmpty) with
  | nil => rfl
  | cons r rest =>
    rw [hs] at hne hpairwise
    exact anyContains_absorb k hpairwise hne

/-- Joining ranges makes no empty one out of ranges that are not empty. -/
theorem start_lt_stop_of_mem_absorb {current : KeyRange} {rs : List KeyRange}
    (h : ∀ r ∈ current :: rs, r.start < r.stop) : ∀ r ∈ absorb current rs, r.start < r.stop := by
  induction rs generalizing current with
  | nil => exact h
  | cons r rest ih =>
    obtain ⟨hcurrent, hr, hrest⟩ : current.start < current.stop ∧ r.start < r.stop ∧
        ∀ r ∈ rest, r.start < r.stop := by simpa using h
    rw [absorb]
    split
    · exact ih (List.forall_mem_cons.mpr ⟨start_lt_max hcurrent _, hrest⟩)
    · exact List.forall_mem_cons.mpr ⟨hcurrent, ih (List.forall_mem_cons.mpr ⟨hr, hrest⟩)⟩

/-- Joining ranges that go by their starts makes none that starts before the first
of them. -/
theorem start_le_of_mem_absorb {current : KeyRange} {rs : List KeyRange}
    (h : (current :: rs).Pairwise fun a b => a.start ≤ b.start) :
    ∀ r ∈ absorb current rs, current.start ≤ r.start := by
  induction rs generalizing current with
  | nil =>
    intro r hr
    rw [absorb, List.mem_singleton] at hr
    exact hr ▸ Int64.le_refl _
  | cons r rest ih =>
    obtain ⟨hcurrent, hrs⟩ := List.pairwise_cons.mp h
    rw [absorb]
    split
    · exact ih (pairwise_joined h _)
    · refine List.forall_mem_cons.mpr ⟨Int64.le_refl _, fun s hs => ?_⟩
      exact Int64.le_trans (hcurrent r List.mem_cons_self) (ih hrs s hs)

/-- Joining ranges that overlap or touch leaves a gap between any two. -/
theorem pairwise_absorb {current : KeyRange} {rs : List KeyRange}
    (h : (current :: rs).Pairwise fun a b => a.start ≤ b.start) :
    (absorb current rs).Pairwise fun a b => a.stop < b.start := by
  induction rs generalizing current with
  | nil => exact List.pairwise_singleton ..
  | cons r rest ih =>
    obtain ⟨-, hrs⟩ := List.pairwise_cons.mp h
    rw [absorb]
    split
    · exact ih (pairwise_joined h _)
    · next hgap =>
      -- The next range starts behind the gap, and no later one starts before it.
      refine List.pairwise_cons.mpr ⟨fun s hs => ?_, ih hrs⟩
      exact Int64.lt_of_lt_of_le (Int64.not_le.mp hgap) (start_le_of_mem_absorb hrs s hs)

/-- **A list in its canonical form is canonical**: no range in it is empty, and each
stops strictly before the next one starts. -/
theorem canonical_normalize (rs : List KeyRange) : Canonical (normalize rs) := by
  have hne : ∀ r ∈ sort (rs.filter fun r => !r.isEmpty), r.start < r.stop :=
    start_lt_stop_of_mem_sort
  have hpairwise := pairwise_sort (rs.filter fun r => !r.isEmpty)
  rw [normalize]
  cases hs : sort (rs.filter fun r => !r.isEmpty) with
  | nil => exact ⟨List.forall_mem_nil _, .nil⟩
  | cons r rest =>
    rw [hs] at hne hpairwise
    exact ⟨start_lt_stop_of_mem_absorb hne, pairwise_absorb hpairwise⟩

theorem intersect?_eq_some {a b r : KeyRange} :
    a.intersect? b = some r ↔ (a.meet b).isEmpty = false ∧ a.meet b = r := by
  rw [intersect?]
  split <;> simp_all

/-- **The overlap of two lists covers the keys that both cover.** -/
@[simp] theorem anyContains_intersectAll (as bs : List KeyRange) (k : Key) :
    anyContains (intersectAll as bs) k = (anyContains as k && anyContains bs k) := by
  rw [intersectAll, anyContains_normalize, Bool.eq_iff_iff, Bool.and_eq_true, anyContains_iff,
    anyContains_iff, anyContains_iff]
  constructor
  · rintro ⟨r, hr, hk⟩
    obtain ⟨a, ha, hr⟩ := List.mem_flatMap.mp hr
    obtain ⟨b, hb, hr⟩ := List.mem_filterMap.mp hr
    obtain ⟨-, rfl⟩ := intersect?_eq_some.mp hr
    rw [contains_meet, Bool.and_eq_true] at hk
    exact ⟨⟨a, ha, hk.1⟩, b, hb, hk.2⟩
  · rintro ⟨⟨a, ha, hka⟩, b, hb, hkb⟩
    have hk : (a.meet b).contains k = true := by rw [contains_meet, hka, hkb]; rfl
    exact ⟨a.meet b, List.mem_flatMap.mpr ⟨a, ha, List.mem_filterMap.mpr
      ⟨b, hb, intersect?_eq_some.mpr ⟨not_isEmpty_of_contains hk, rfl⟩⟩⟩, hk⟩

/-! ### One list for every set of keys -/

section Unique

variable {r s : KeyRange} {rs ss : List KeyRange} {k : Key}

/-- A range that stops behind its start holds the start. -/
theorem contains_start (h : r.start < r.stop) : r.contains r.start = true :=
  contains_iff.mpr ⟨Int64.le_refl _, h⟩

theorem Canonical.start_lt_stop (h : Canonical (r :: rs)) : r.start < r.stop :=
  h.1 r List.mem_cons_self

theorem Canonical.tail (h : Canonical (r :: rs)) : Canonical rs :=
  ⟨fun s hs => h.1 s (List.mem_cons_of_mem _ hs), h.2.tail⟩

/-- Behind the first range of a canonical list there is a gap before the next key. -/
theorem Canonical.stop_lt (h : Canonical (r :: rs)) (hk : anyContains rs k = true) :
    r.stop < k := by
  obtain ⟨s, hs, hk⟩ := anyContains_iff.mp hk
  have hgap : r.stop < s.start := (List.pairwise_cons.mp h.2).1 s hs
  exact Int64.lt_of_lt_of_le hgap (contains_iff.mp hk).1

/-- A canonical list covers no key before the start of its first range. -/
theorem Canonical.start_le (h : Canonical (r :: rs)) (hk : anyContains (r :: rs) k = true) :
    r.start ≤ k := by
  rw [anyContains_cons, Bool.or_eq_true] at hk
  rcases hk with hk | hk
  · exact (contains_iff.mp hk).1
  · exact Int64.le_of_lt (Int64.lt_trans h.start_lt_stop (h.stop_lt hk))

/-- The key at which the first range of a canonical list stops is in the gap behind
it. -/
theorem Canonical.not_anyContains_stop (h : Canonical (r :: rs)) :
    anyContains (r :: rs) r.stop = false := by
  rw [anyContains_cons, Bool.or_eq_false_iff, Bool.eq_false_iff, Bool.eq_false_iff]
  refine ⟨fun hr => Int64.lt_irrefl (contains_iff.mp hr).2, fun hrs => ?_⟩
  exact Int64.lt_irrefl (h.stop_lt hrs)

/-- The later ranges of a canonical list cover what the first one does not hold. -/
theorem Canonical.anyContains_tail (h : Canonical (r :: rs)) (k : Key) :
    anyContains rs k = (anyContains (r :: rs) k && !r.contains k) := by
  rw [anyContains_cons]
  cases hk : anyContains rs k with
  | false => simp
  | true =>
    have hout : r.contains k = false := by
      rw [Bool.eq_false_iff]
      intro hin
      exact Int64.lt_asymm (contains_iff.mp hin).2 (h.stop_lt hk)
    simp [hout]

/-- Where the keys that are covered start, the first range of a canonical list
starts. -/
theorem Canonical.start_le_start (hr : Canonical (r :: rs)) (hs : Canonical (s :: ss))
    (h : ∀ k, anyContains (r :: rs) k = anyContains (s :: ss) k) : r.start ≤ s.start := by
  refine hr.start_le ?_
  rw [h, anyContains_cons, contains_start hs.start_lt_stop, Bool.true_or]

/-- Where the first gap is, the first range of a canonical list stops. -/
theorem Canonical.stop_le_stop (hr : Canonical (r :: rs)) (hstart : r.start = s.start)
    (h : ∀ k, anyContains (r :: rs) k = anyContains (s :: ss) k) : s.stop ≤ r.stop := by
  rw [← Int64.not_lt]
  intro hlt
  have hin : s.contains r.stop = true :=
    contains_iff.mpr ⟨hstart ▸ Int64.le_of_lt hr.start_lt_stop, hlt⟩
  have hgap := hr.not_anyContains_stop
  rw [h, anyContains_cons, hin] at hgap
  cases hgap

/-- **Canonical lists are told apart by the keys they cover.** -/
theorem Canonical.eq_of_anyContains (hr : Canonical rs) (hs : Canonical ss)
    (h : ∀ k, anyContains rs k = anyContains ss k) : rs = ss := by
  induction rs generalizing ss with
  | nil =>
    cases ss with
    | nil => rfl
    | cons s ss =>
      have hk := h s.start
      rw [anyContains_cons, contains_start hs.start_lt_stop] at hk
      cases hk
  | cons r rs ih =>
    cases ss with
    | nil =>
      have hk := h r.start
      rw [anyContains_cons, contains_start hr.start_lt_stop] at hk
      cases hk
    | cons s ss =>
      have hstart : r.start = s.start :=
        Int64.le_antisymm (hr.start_le_start hs h) (hs.start_le_start hr fun k => (h k).symm)
      have hstop : r.stop = s.stop :=
        Int64.le_antisymm (hs.stop_le_stop hstart.symm fun k => (h k).symm)
          (hr.stop_le_stop hstart h)
      have hhead : r = s := by
        cases r
        cases s
        rw [mk.injEq]
        exact ⟨hstart, hstop⟩
      subst hhead
      -- What is left behind the first range is covered by the other ones, on both sides.
      refine congrArg (r :: ·) (ih hr.tail hs.tail fun k => ?_)
      rw [hr.anyContains_tail, hs.anyContains_tail, h]

/-- **There is one canonical list for the keys that are covered**: two lists have the
same canonical form just if they cover the same keys. -/
theorem normalize_eq_iff {xs ys : List KeyRange} :
    normalize xs = normalize ys ↔ ∀ k, anyContains xs k = anyContains ys k := by
  constructor
  · intro h k
    rw [← anyContains_normalize xs, h, anyContains_normalize]
  · intro h
    refine (canonical_normalize xs).eq_of_anyContains (canonical_normalize ys) fun k => ?_
    rw [anyContains_normalize, anyContains_normalize, h]

/-- A canonical list is its own canonical form. -/
theorem Canonical.normalize_eq (h : Canonical rs) : normalize rs = rs :=
  (canonical_normalize rs).eq_of_anyContains h (anyContains_normalize rs)

/-- The canonical form does not depend on the order of the ranges. -/
theorem normalize_eq_of_perm {xs ys : List KeyRange} (h : xs.Perm ys) :
    normalize xs = normalize ys := by
  refine normalize_eq_iff.mpr fun k => ?_
  rw [Bool.eq_iff_iff, anyContains_iff, anyContains_iff]
  exact ⟨fun ⟨r, hr, hk⟩ => ⟨r, h.mem_iff.mp hr, hk⟩, fun ⟨r, hr, hk⟩ => ⟨r, h.mem_iff.mpr hr, hk⟩⟩

theorem canonical_intersectAll (as bs : List KeyRange) : Canonical (intersectAll as bs) :=
  canonical_normalize _

end Unique

/-- **Lists of ranges stand for sets of keys.** The canonical form of a list covers the
keys that the list covers; it has no empty range, and a gap before every next one; it is
the same for two lists just if they cover the same keys, so that it is its own canonical
form and does not depend on the order of the ranges. The overlap of two lists, whatever
their form, covers the keys that both cover, and is canonical as well. -/
theorem normalize_represents (xs ys : List KeyRange) :
    (∀ k, anyContains (normalize xs) k = anyContains xs k) ∧
    Canonical (normalize xs) ∧
    (normalize xs = normalize ys ↔ ∀ k, anyContains xs k = anyContains ys k) ∧
    normalize (normalize xs) = normalize xs ∧
    (xs.Perm ys → normalize xs = normalize ys) ∧
    (∀ k, anyContains (intersectAll xs ys) k = (anyContains xs k && anyContains ys k)) ∧
    Canonical (intersectAll xs ys) :=
  ⟨anyContains_normalize xs, canonical_normalize xs, normalize_eq_iff,
    (canonical_normalize xs).normalize_eq, normalize_eq_of_perm,
    anyContains_intersectAll xs ys, canonical_intersectAll xs ys⟩

/-- Ranges that overlap, touch, hold nothing or are turned around, in two orders. -/
theorem normalize_represents_mixedRanges :
    [⟨10, 20⟩, ⟨0, 5⟩, ⟨20, 25⟩, ⟨9, 2⟩, ⟨3, 8⟩, ⟨30, 30⟩].Perm
        ([⟨30, 30⟩, ⟨20, 25⟩, ⟨3, 8⟩, ⟨0, 5⟩, ⟨10, 20⟩, ⟨9, 2⟩] : List KeyRange) ∧
      normalize [⟨10, 20⟩, ⟨0, 5⟩, ⟨20, 25⟩, ⟨9, 2⟩, ⟨3, 8⟩, ⟨30, 30⟩] =
        normalize [⟨30, 30⟩, ⟨20, 25⟩, ⟨3, 8⟩, ⟨0, 5⟩, ⟨10, 20⟩, ⟨9, 2⟩] ∧
      normalize [⟨10, 20⟩, ⟨0, 5⟩, ⟨20, 25⟩, ⟨9, 2⟩, ⟨3, 8⟩, ⟨30, 30⟩] = [⟨0, 8⟩, ⟨10, 25⟩] :=
  ⟨by decide, (normalize_represents _ _).2.2.2.2.1 (by decide), by decide⟩

end KeyRange

end KeyedSeries

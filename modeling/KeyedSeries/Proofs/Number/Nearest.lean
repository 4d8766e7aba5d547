import KeyedSeries.Proofs.Number.Rounding

/-!
# How far a fraction is rounded

The place of the last bit and the integer that a fraction is rounded to there
(`KeyedSeries.BinaryFormat.IsRounded`) say what the nearest number is: it is half a
unit away at most (`KeyedSeries.BinaryFormat.exists_has_nearest`), and **a larger
fraction has no smaller one** (`KeyedSeries.BinaryFormat.nearest_mono`).
-/

namespace KeyedSeries

section Fraction

variable {num den num' den' : Nat}

theorem roundHalfEven_mono (hden : 0 < den) (hden' : 0 < den')
    (h : (num / den : ℚ) ≤ num' / den') : roundHalfEven num den ≤ roundHalfEven num' den' := by
  obtain ⟨hlow, -, heven⟩ := @roundHalfEven_spec num den hden
  obtain ⟨-, hhigh, heven'⟩ := @roundHalfEven_spec num' den' hden'
  exact le_of_near h hlow (fun htie => heven (.inl htie)) hhigh fun htie => heven' (.inr htie)

theorem floorLog2_mono (hnum : 0 < num) (hden : 0 < den) (hnum' : 0 < num') (hden' : 0 < den')
    (h : (num / den : ℚ) ≤ num' / den') : floorLog2 num den ≤ floorLog2 num' den' := by
  have hlt := (floorLog2_spec hnum hden).1.trans_lt (h.trans_lt (floorLog2_spec hnum' hden').2)
  have := (zpow_lt_zpow_iff_right₀ (by norm_num)).mp hlt
  omega

end Fraction

namespace BinaryFormat

variable {f : BinaryFormat} {num den num' den' : Nat} {q q' : Int} {k k' : Nat}

/-- The last bit of the number nearest to a fraction counts `2 ^ q`, and so many units
the fraction is rounded to. -/
structure IsRounded (f : BinaryFormat) (num den : Nat) (q : Int) (k : Nat) : Prop where
  /-- The place of the last bit. -/
  place : max (floorLog2 num den - f.fractionBits) f.leastExponent = q
  /-- The units. -/
  units : roundHalfEven (num * twoTo (-q).toNat) (den * twoTo q.toNat) = k

theorem exists_isRounded (f : BinaryFormat) (num den : Nat) : ∃ q k, f.IsRounded num den q k :=
  ⟨_, _, rfl, rfl⟩

namespace IsRounded

theorem least_le (h : f.IsRounded num den q k) : f.leastExponent ≤ q := by
  have := h.place
  omega

theorem nearest_eq (hnum : 0 < num) (h : f.IsRounded num den q k) :
    f.nearest num den = min (f.pattern k q) f.infinityPattern :=
  BinaryFormat.nearest_eq hnum h.place h.units

/-- The fraction is half a unit away at most. -/
theorem near (hden : 0 < den) (h : f.IsRounded num den q k) :
    (k - 1 / 2 : ℚ) * 2 ^ q ≤ num / den ∧ (num / den : ℚ) ≤ (k + 1 / 2) * 2 ^ q := by
  obtain ⟨hlow, hhigh, -⟩ :=
    @roundHalfEven_spec (num * twoTo (-q).toNat) _ (Nat.mul_pos hden (twoTo_pos q.toNat))
  rw [h.units, scaled_div] at hlow hhigh
  exact ⟨(le_div_iff₀ (two_zpow_pos q)).mp hlow, (div_le_iff₀ (two_zpow_pos q)).mp hhigh⟩

/-- The leading bit is not above the place for it. -/
theorem lt_top (hnum : 0 < num) (hden : 0 < den) (h : f.IsRounded num den q k) :
    (num / den : ℚ) < 2 ^ (q + f.fractionBits + 1) := by
  refine (floorLog2_spec hnum hden).2.trans_le (zpow_le_zpow_right₀ (by norm_num) ?_)
  have := h.place
  omega

/-- It is at this place, unless the last bit is at the lowest one. -/
theorem top_le (hnum : 0 < num) (hden : 0 < den) (h : f.IsRounded num den q k) :
    q = f.leastExponent ∨ (2 : ℚ) ^ (q + f.fractionBits) ≤ num / den := by
  have hplace := h.place
  rcases le_total (floorLog2 num den - f.fractionBits) f.leastExponent with hle | hle
  · exact .inl (by omega)
  · refine .inr (le_trans (zpow_le_zpow_right₀ (by norm_num) ?_) (floorLog2_spec hnum hden).1)
    omega

theorem units_le (hnum : 0 < num) (hden : 0 < den) (h : f.IsRounded num den q k) :
    k ≤ twoTo (f.fractionBits + 1) := by
  have hlt := (h.near hden).1.trans_lt (h.lt_top hnum hden)
  rw [add_assoc, two_zpow_add, mul_comm (2 ^ q)] at hlt
  have hunits := lt_of_mul_lt_mul_right hlt (two_zpow_pos q).le
  by_contra hgt
  have hge : ((twoTo (f.fractionBits + 1) : ℕ) + 1 : ℚ) ≤ k := by
    exact_mod_cast Nat.lt_of_not_le hgt
  rw [twoTo_eq] at hge
  push_cast at hge
  have hpow : (2 : ℚ) ^ (f.fractionBits + 1 : ℤ) = 2 ^ (f.fractionBits + 1) := by
    exact_mod_cast zpow_natCast (2 : ℚ) (f.fractionBits + 1)
  rw [hpow] at hunits
  linarith

theorem le_units (hnum : 0 < num) (hden : 0 < den) (h : f.IsRounded num den q k) :
    q = f.leastExponent ∨ twoTo f.fractionBits ≤ k := by
  refine (h.top_le hnum hden).imp_right fun htop => ?_
  have hle := htop.trans (h.near hden).2
  rw [add_comm, two_zpow_add] at hle
  have hunits := le_of_mul_le_mul_right hle (two_zpow_pos q)
  by_contra hlt
  have hge : (k + 1 : ℚ) ≤ (twoTo f.fractionBits : ℕ) := by exact_mod_cast Nat.lt_of_not_le hlt
  rw [twoTo_eq] at hge
  push_cast at hge
  rw [zpow_natCast] at hunits
  linarith

/-- A larger fraction has no smaller pattern. -/
theorem pattern_mono (hnum : 0 < num) (hden : 0 < den) (hnum' : 0 < num') (hden' : 0 < den')
    (h : f.IsRounded num den q k) (h' : f.IsRounded num' den' q' k')
    (hle : (num / den : ℚ) ≤ num' / den') : f.pattern k q ≤ f.pattern k' q' := by
  have hplaces : q ≤ q' := by
    have := floorLog2_mono hnum hden hnum' hden' hle
    have := h.place
    have := h'.place
    omega
  rcases hplaces.eq_or_lt with rfl | hlt
  · have hunits : k ≤ k' := by
      rw [← h.units, ← h'.units]
      refine roundHalfEven_mono (Nat.mul_pos hden (twoTo_pos _))
        (Nat.mul_pos hden' (twoTo_pos _)) ?_
      rw [scaled_div, scaled_div]
      exact div_le_div_of_nonneg_right hle (two_zpow_pos q).le
    exact Nat.add_le_add_left hunits _
  · -- The next place starts where the units of this one end.
    have hleast := h.least_le
    have hunits := h.units_le hnum hden
    have hunits' := (h'.le_units hnum' hden').resolve_left (by omega)
    have hcount : (q - f.leastExponent).toNat + 1 ≤ (q' - f.leastExponent).toNat := by omega
    have hmul := Nat.mul_le_mul_right (twoTo f.fractionBits) hcount
    rw [Nat.add_mul, Nat.one_mul] at hmul
    rw [twoTo_succ] at hunits
    rw [pattern, pattern]
    omega

end IsRounded

/-- **A larger fraction has no smaller nearest number.** -/
theorem nearest_mono (hden : 0 < den) (hden' : 0 < den') (hle : (num / den : ℚ) ≤ num' / den') :
    f.nearest num den ≤ f.nearest num' den' := by
  rcases Nat.eq_zero_or_pos num with rfl | hnum
  · rw [nearest, if_pos rfl]
    exact Nat.zero_le _
  · have hnum' : 0 < num' := by
      by_contra hzero
      obtain rfl : num' = 0 := by omega
      have hpos : (0 : ℚ) < num / den := div_pos (by exact_mod_cast hnum) (by exact_mod_cast hden)
      simp at hle
      linarith
    obtain ⟨q, k, h⟩ := exists_isRounded f num den
    obtain ⟨q', k', h'⟩ := exists_isRounded f num' den'
    rw [h.nearest_eq hnum, h'.nearest_eq hnum']
    exact min_le_min_right _ (h.pattern_mono hnum hden hnum' hden' h' hle)

/-- **A fraction is rounded to a number** half a unit away at most, where it is rounded to
a finite one. The unit is the one of the fraction's own leading bit. -/
theorem exists_has_nearest (hnum : 0 < num) (hden : 0 < den)
    (hfinite : f.nearest num den < f.infinityPattern) : ∃ m e, f.Has m e ∧
      f.nearest num den = f.pattern m e ∧ ∃ q : Int,
        |(m * 2 ^ e - num / den : ℚ)| ≤ 2 ^ q / 2 ∧
          (q = f.leastExponent ∨ (2 : ℚ) ^ (q + f.fractionBits) ≤ num / den) := by
  obtain ⟨q, k, h⟩ := exists_isRounded f num den
  have heq := h.nearest_eq hnum
  have hpattern : f.nearest num den = f.pattern k q := by omega
  obtain ⟨hlow, hhigh⟩ := h.near hden
  have habs : |(k * 2 ^ q - num / den : ℚ)| ≤ 2 ^ q / 2 := by
    rw [abs_le]
    constructor <;> linarith
  have htop := h.top_le hnum hden
  rw [hpattern] at hfinite ⊢
  rcases (h.units_le hnum hden).lt_or_eq with hlt | rfl
  · exact ⟨k, q, ⟨hlt, h.least_le, h.le_units hnum hden, hfinite⟩, rfl, q, habs, htop⟩
  · -- The units have been rounded up to the next power of two.
    have hleast := h.least_le
    have hcarry : f.pattern (twoTo (f.fractionBits + 1)) q =
        f.pattern (twoTo f.fractionBits) (q + 1) := by
      have hcount : (q + 1 - f.leastExponent).toNat = (q - f.leastExponent).toNat + 1 := by omega
      rw [pattern, pattern, hcount, twoTo_succ]
      ring
    have hvalue : ((twoTo f.fractionBits : ℕ) : ℚ) * 2 ^ (q + 1) =
        (twoTo (f.fractionBits + 1) : ℕ) * 2 ^ q := by
      rw [twoTo_succ, two_zpow_add]
      push_cast
      ring
    refine ⟨twoTo f.fractionBits, q + 1, ⟨?_, by omega, .inr (le_refl _), hcarry ▸ hfinite⟩, hcarry,
      q, by rwa [hvalue], htop⟩
    rw [twoTo_succ]
    have := twoTo_pos f.fractionBits
    omega

end BinaryFormat

end KeyedSeries

import KeyedSeries.Proofs.Number.Nearest

/-!
# Rounded arithmetic

Products, quotients and conversions are fractions, rounded
(`KeyedSeries.BinaryFloat.product_eq`, `KeyedSeries.BinaryFloat.quotient_eq`,
`KeyedSeries.BinaryFloat.convert_eq`). A whole number of few bits is a number of the
format (`KeyedSeries.BinaryFormat.exists_has`) and is not rounded at all, and the
patterns without sign go up with the numbers (`KeyedSeries.BinaryFormat.value_mono`).
-/

namespace KeyedSeries

namespace BinaryFormat

variable {f : BinaryFormat} {m m' num den : Nat} {e e' : Int}

/-! ### Numbers of a format -/

/-- A whole number of few bits, times a power of two that is neither very large nor very
small. -/
theorem exists_has {n : Nat} {s : Int} (hn : 0 < n) (hlt : n < twoTo (f.fractionBits + 1))
    (hleast : f.leastExponent + f.fractionBits ≤ s)
    (hgreatest : s + 2 ≤ f.leastExponent + f.reservedExponent) :
    ∃ m e, f.Has m e ∧ 0 < m ∧ (m * 2 ^ e : ℚ) = n * 2 ^ s := by
  have hlog : n.log2 ≤ f.fractionBits := by
    have := (Nat.log2_lt hn.ne').mpr hlt
    omega
  -- The leading bit is moved to the place of the hidden one.
  obtain ⟨shift, hshift⟩ : ∃ shift, shift = f.fractionBits - n.log2 := ⟨_, rfl⟩
  have hsum : n.log2 + shift = f.fractionBits := by omega
  have hnormal : twoTo f.fractionBits ≤ n * twoTo shift := by
    rw [← hsum, twoTo_add]
    exact Nat.mul_le_mul_right _ (Nat.log2_self_le hn.ne')
  have hfits : n * twoTo shift < twoTo (f.fractionBits + 1) := by
    have hsum' : f.fractionBits + 1 = n.log2 + 1 + shift := by omega
    rw [hsum', twoTo_add]
    exact Nat.mul_lt_mul_of_pos_right Nat.lt_log2_self (twoTo_pos _)
  have hfinite : f.pattern (n * twoTo shift) (s - shift) < f.infinityPattern := by
    have hcount : (s - shift - f.leastExponent).toNat + 2 ≤ f.reservedExponent := by omega
    have hmul := Nat.mul_le_mul_right (twoTo f.fractionBits) hcount
    rw [Nat.add_mul] at hmul
    rw [twoTo_succ] at hfits
    rw [pattern, infinityPattern]
    omega
  refine ⟨n * twoTo shift, s - shift, ⟨hfits, by omega, .inr hnormal, hfinite⟩,
    Nat.mul_pos hn (twoTo_pos _), ?_⟩
  have hsplit := two_zpow_add shift (s - shift)
  rw [add_sub_cancel, zpow_natCast] at hsplit
  rw [hsplit, twoTo_eq]
  push_cast
  ring

/-- How large the numbers of 32 bits are. -/
theorem single_bounds (h : single.Has m e) : m < 16777216 ∧ -149 ≤ e ∧ e ≤ 104 := by
  have hlt := h.lt
  have hle := h.least
  have hnormal := h.normal
  have hfinite := h.finite
  have hleast : single.leastExponent = -149 := rfl
  have hinfinity : single.infinityPattern = 255 * 8388608 := rfl
  have hbits : twoTo single.fractionBits = 8388608 := rfl
  have htop : twoTo (single.fractionBits + 1) = 16777216 := rfl
  rw [pattern, hleast, hinfinity, hbits] at hfinite
  rw [hleast, hbits] at hnormal
  rw [htop] at hlt
  rw [hleast] at hle
  omega

/-- **Patterns without sign go up with the numbers.** -/
theorem value_mono (h : f.Has m e) (h' : f.Has m' e') (hle : f.pattern m e ≤ f.pattern m' e') :
    (m * 2 ^ e : ℚ) ≤ m' * 2 ^ e' := by
  have hlt := h.lt
  have hlt' := h'.lt
  have hleast := h.least
  have hleast' := h'.least
  rw [twoTo_succ] at hlt hlt'
  rw [pattern, pattern] at hle
  rcases lt_trichotomy e e' with hbelow | rfl | habove
  · have hnormal := h'.normal.resolve_left (by omega)
    have hsplit := two_zpow_add (e' - e - 1) (e + 1)
    rw [sub_add_add_cancel, sub_add_cancel] at hsplit
    have hone : (1 : ℚ) ≤ 2 ^ (e' - e - 1) := one_le_zpow₀ (by norm_num) (by omega)
    have hunit := two_zpow_pos e
    have hlt'' : (m : ℚ) ≤ 2 * m' := by
      have hle : m ≤ 2 * m' := by omega
      exact_mod_cast hle
    calc (m * 2 ^ e : ℚ) ≤ 2 * m' * 2 ^ e := mul_le_mul_of_nonneg_right hlt'' hunit.le
      _ = m' * (1 * 2 ^ (e + 1)) := by rw [two_zpow_add]; ring
      _ ≤ m' * 2 ^ e' := by
        rw [hsplit]
        exact mul_le_mul_of_nonneg_left
          (mul_le_mul_of_nonneg_right hone (two_zpow_pos _).le) (Nat.cast_nonneg m')
  · have hunits : (m : ℚ) ≤ m' := by exact_mod_cast Nat.le_of_add_le_add_left hle
    exact mul_le_mul_of_nonneg_right hunits (two_zpow_pos e).le
  · -- A larger exponent means a larger pattern.
    have hnormal := h.normal.resolve_left (by omega)
    have hcount : (e' - f.leastExponent).toNat + 1 ≤ (e - f.leastExponent).toNat := by omega
    have hmul := Nat.mul_le_mul_right (twoTo f.fractionBits) hcount
    rw [Nat.add_mul, Nat.one_mul] at hmul
    omega

/-- A fraction that is a number is not rounded. -/
theorem nearest_of_eq (h : f.Has m e) (hm : 0 < m) (hden : 0 < den)
    (hv : (num / den : ℚ) = m * 2 ^ e) : f.nearest num den = f.pattern m e :=
  nearest_of_within h hm hden (hv ▸ Rounding.within_self hm)

theorem nearest_le (f : BinaryFormat) (num den : Nat) : f.nearest num den ≤ f.infinityPattern := by
  rw [nearest]
  split
  · exact Nat.zero_le _
  · exact min_le_right _ _

end BinaryFormat

namespace BinaryFloat

variable {f g : BinaryFormat} {m m' num den : Nat} {e e' : Int} {negative negative' : Bool}

/-! ### Fractions -/

/-- A fraction is finite if it is rounded to a finite pattern. -/
theorem isFinite_ofFraction_iff : (ofFraction negative num den : BinaryFloat f).isFinite = true ↔
    f.nearest num den < f.infinityPattern := by
  have hle := f.nearest_le num den
  have hinfinity := infinityPattern_lt f
  rw [isFinite, ofFraction, exponentField_ofPattern (by omega), bne_iff_ne,
    BinaryFormat.infinityPattern, ← Nat.div_lt_iff_lt_mul (twoTo_pos _)]
  have hfield : f.nearest num den / twoTo f.fractionBits ≤ f.reservedExponent := by
    rw [BinaryFormat.infinityPattern, Nat.mul_comm] at hle
    exact Nat.div_le_of_le_mul hle
  omega

theorem datum_ofFraction (h : f.Has m e) (hm : 0 < m) (hden : 0 < den)
    (hv : (num / den : ℚ) = m * 2 ^ e) :
    (ofFraction negative num den : BinaryFloat f).datum = .finite negative m e := by
  rw [ofFraction, BinaryFormat.nearest_of_eq h hm hden hv, datum_ofPattern h]

/-- A fraction of few bits is not rounded. -/
theorem value_ofFraction_of_few {n : Nat} {s : Int} (hn : 0 < n)
    (hlt : n < twoTo (f.fractionBits + 1)) (hleast : f.leastExponent + f.fractionBits ≤ s)
    (hgreatest : s + 2 ≤ f.leastExponent + f.reservedExponent) (hden : 0 < den)
    (hv : (num / den : ℚ) = n * 2 ^ s)
    (h : (ofFraction negative num den : BinaryFloat f).datum = .finite negative m e) :
    (m * 2 ^ e : ℚ) = num / den := by
  obtain ⟨m₀, e₀, hhas, hm₀, hvalue⟩ := BinaryFormat.exists_has hn hlt hleast hgreatest
  have hdatum : (ofFraction negative num den : BinaryFloat f).datum = .finite negative m₀ e₀ :=
    datum_ofFraction hhas hm₀ hden (hv.trans hvalue.symm)
  obtain ⟨rfl, rfl⟩ : m = m₀ ∧ e = e₀ := by simpa [h] using hdatum
  rw [hvalue, hv]

theorem ofFraction_of_within {x : BinaryFloat f} (hx : x.datum = .finite negative m e) (hm : 0 < m)
    (hden : 0 < den) (hv : (Rounding.of f m e).Within (num / den)) :
    ofFraction negative num den = x := by
  obtain ⟨h, rfl⟩ := eq_ofPattern_of_datum hx
  rw [ofFraction, BinaryFormat.nearest_of_within h hm hden hv]

/-! ### Operations -/

/-- A power of two as a fraction. -/
theorem scaled_fraction (a b : Nat) (s : Int) :
    ((a * twoTo s.toNat : ℕ) : ℚ) / (b * twoTo (-s).toNat : ℕ) = a / b * 2 ^ s := by
  have h := @scaled_div a b (-s)
  rw [neg_neg] at h
  rw [h, zpow_neg, div_inv_eq_mul]

/-- A product is one of fractions, rounded. -/
theorem product_eq {x y : BinaryFloat f} (hx : x.datum = .finite negative m e)
    (hy : y.datum = .finite negative' m' e') : ∃ num den : ℕ, 0 < den ∧
      (num / den : ℚ) = m * 2 ^ e * (m' * 2 ^ e') ∧
        x.product y = ofFraction (negative != negative') num den := by
  refine ⟨m * m' * twoTo (e + e').toNat, 1 * twoTo (-(e + e')).toNat,
    Nat.mul_pos Nat.one_pos (twoTo_pos _), ?_, ?_⟩
  · rw [scaled_fraction, two_zpow_add]
    push_cast
    ring
  · rw [product, hx, hy, Nat.one_mul]

/-- A quotient is one of fractions, rounded. -/
theorem quotient_eq {x y : BinaryFloat f} (hx : x.datum = .finite negative m e)
    (hy : y.datum = .finite negative' m' e') (hm' : 0 < m') : ∃ num den : ℕ, 0 < den ∧
      (num / den : ℚ) = m * 2 ^ e / (m' * 2 ^ e') ∧
        x.quotient y = ofFraction (negative != negative') num den := by
  refine ⟨m * twoTo (e - e').toNat, m' * twoTo (e' - e).toNat,
    Nat.mul_pos hm' (twoTo_pos _), ?_, ?_⟩
  · have h := scaled_fraction m m' (e - e')
    have hsplit := two_zpow_add (e - e') e'
    rw [sub_add_cancel] at hsplit
    rw [neg_sub] at h
    rw [h, hsplit]
    have hm'' : (m' : ℚ) ≠ 0 := by exact_mod_cast hm'.ne'
    have := (two_zpow_pos e').ne'
    field_simp
  · rw [quotient, hx, hy]

/-- A conversion is the number as a fraction, rounded. -/
theorem convert_eq {x : BinaryFloat f} (hx : x.datum = .finite negative m e) :
    ∃ num den : ℕ, 0 < den ∧ (num / den : ℚ) = m * 2 ^ e ∧
      (x.convert : BinaryFloat g) = ofFraction negative num den := by
  refine ⟨m * twoTo e.toNat, 1 * twoTo (-e).toNat, Nat.mul_pos Nat.one_pos (twoTo_pos _), ?_, ?_⟩
  · rw [scaled_fraction, Nat.cast_one, div_one]
  · rw [convert, hx, Nat.one_mul]

end BinaryFloat

end KeyedSeries

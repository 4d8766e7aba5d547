import KeyedSeries.Proofs.Json.Parts
import KeyedSeries.Proofs.Number.Arithmetic

/-!
# What numerals are read as

A numeral is read by way of two numbers of 64 bits, its significand and a power of ten,
and each of them is rounded. Where both need no rounding, **the numeral is read as the
number nearest to it** (`KeyedSeries.Numeral.double?_of_exact`). Elsewhere the result
may be a neighbour of this number, but **a numeral that is not above the decimal of the
greatest number is read as some number** (`KeyedSeries.Numeral.isSome_double?`).
-/

namespace KeyedSeries.Numeral

open BinaryFloat

/-! ### Numbers that need no rounding -/

/-- A whole number of 53 bits, with some zero bits behind them, is not rounded. -/
theorem exists_datum_ofFraction {core a : Nat} (negative : Bool) (hcore : 0 < core)
    (hlt : core < 2 ^ 53) (ha : a ≤ 100) : ∃ m e,
      (ofFraction negative (core * 2 ^ a) 1 : BinaryFloat .double).datum = .finite negative m e ∧
        0 < m ∧ (m * 2 ^ e : ℚ) = (core * 2 ^ a : ℕ) := by
  have hleast : BinaryFormat.double.leastExponent = -1074 := rfl
  have hreserved : BinaryFormat.double.reservedExponent = 2047 := rfl
  have hbits : BinaryFormat.double.fractionBits = 52 := rfl
  obtain ⟨m, e, h, hm, hv⟩ := BinaryFormat.exists_has (f := .double) (s := (a : ℤ)) hcore hlt
    (by rw [hleast, hbits]; omega) (by rw [hleast, hreserved]; omega)
  have hv' : (m * 2 ^ e : ℚ) = (core * 2 ^ a : ℕ) := by
    rw [hv, zpow_natCast]
    push_cast
    rfl
  exact ⟨m, e, datum_ofFraction h hm Nat.one_pos (by rw [hv', Nat.cast_one, div_one]), hm, hv'⟩

/-- The powers of ten up to the twenty-second one are not rounded. -/
theorem exists_datum_power {k : Nat} (hk : k ≤ 22) : ∃ m e,
    (power k).datum = .finite false m e ∧ 0 < m ∧ (m * 2 ^ e : ℚ) = 10 ^ k := by
  have hten : tenTo k = 5 ^ k * 2 ^ k := by
    rw [tenTo_eq, ← mul_pow]
    rfl
  have hlt : 5 ^ k < 2 ^ 53 := lt_of_le_of_lt (Nat.pow_le_pow_right (by decide) hk) (by decide)
  obtain ⟨m, e, hdatum, hm, hv⟩ := exists_datum_ofFraction (a := k) false (by positivity) hlt
    (by omega)
  rw [← hten] at hdatum hv
  refine ⟨m, e, hdatum, hm, hv.trans ?_⟩
  rw [tenTo_eq]
  push_cast
  rfl

/-- **A numeral whose two numbers need no rounding is read as the number nearest to it**,
if that is finite. -/
theorem double?_of_exact {n : Numeral} {core a : Nat} (hcore : 0 < core) (hlt : core < 2 ^ 53)
    (ha : a ≤ 100) (hsignificand : n.significand = core * 2 ^ a) (hscale : n.scale.natAbs ≤ 22) :
    ∃ num den : ℕ, 0 < den ∧ (num / den : ℚ) = n.significand * 10 ^ n.scale ∧
      ((ofFraction n.negative num den : BinaryFloat .double).isFinite = true →
        n.double? = some (ofFraction n.negative num den)) := by
  obtain ⟨m, e, hdatum, -, hv⟩ := exists_datum_ofFraction n.negative hcore hlt ha
  rw [← hsignificand] at hdatum hv
  obtain ⟨m', e', hdatum', hm', hv'⟩ := exists_datum_power hscale
  have hlimit : n.scale.natAbs ≤ powerLimit := hscale.trans (by decide)
  by_cases hneg : n.scale < 0
  · have hcount : (-n.scale).toNat = n.scale.natAbs := by omega
    obtain ⟨num, den, hden, hvalue, hquotient⟩ := quotient_eq hdatum hdatum' hm'
    refine ⟨num, den, hden, ?_, fun _ => ?_⟩
    · have hscale' : n.scale = -(n.scale.natAbs : ℤ) := by omega
      rw [hvalue, hv, hv']
      conv_rhs => rw [hscale', zpow_neg, zpow_natCast]
      rw [div_eq_mul_inv]
    · rw [double?, if_pos hneg, hcount, overPower, if_pos hlimit, hquotient, Bool.bne_false]
  · have hcount : n.scale.toNat = n.scale.natAbs := by omega
    obtain ⟨num, den, hden, hvalue, hproduct⟩ := product_eq hdatum hdatum'
    refine ⟨num, den, hden, ?_, fun hfinite => ?_⟩
    · have hscale' : n.scale = (n.scale.natAbs : ℤ) := by omega
      rw [hvalue, hv, hv']
      conv_rhs => rw [hscale', zpow_natCast]
    · rw [Bool.bne_false] at hproduct
      rw [double?, if_neg hneg, hcount, timesPower?, if_pos hlimit, hproduct, Option.filter_some,
        if_pos hfinite]

/-! ### Numbers that are not too large -/

/-- The decimal of the greatest number. -/
def greatest : Nat := 17976931348623157 * 10 ^ 292

/-- A finite fraction is a number. -/
theorem exists_datum_of_isFinite {f : BinaryFormat} {num den : Nat} {negative : Bool}
    (hden : 0 < den) (h : (ofFraction negative num den : BinaryFloat f).isFinite = true) :
    ∃ m e, f.Has m e ∧ f.nearest num den = f.pattern m e ∧
      (ofFraction negative num den : BinaryFloat f).datum = .finite negative m e := by
  have hlt := isFinite_ofFraction_iff.mp h
  obtain ⟨m, e, hhas, hnearest⟩ : ∃ m e, f.Has m e ∧ f.nearest num den = f.pattern m e := by
    rcases Nat.eq_zero_or_pos num with rfl | hnum
    · have hzero : f.pattern 0 f.leastExponent = 0 := by simp [BinaryFormat.pattern]
      have hnearest : f.nearest 0 den = 0 := by rw [BinaryFormat.nearest, if_pos rfl]
      rw [hnearest] at hlt ⊢
      exact ⟨0, _, ⟨twoTo_pos _, le_refl _, .inl rfl, hzero.trans_lt hlt⟩, hzero.symm⟩
    · obtain ⟨m, e, hhas, hnearest, -⟩ := BinaryFormat.exists_has_nearest hnum hden hlt
      exact ⟨m, e, hhas, hnearest⟩
  exact ⟨m, e, hhas, hnearest, by rw [ofFraction, hnearest, datum_ofPattern hhas]⟩

/-- Whole numbers that are not larger are rounded to numbers that are not larger. -/
theorem exists_datum_of_le {i i' : Nat} (negative negative' : Bool) (hle : i ≤ i')
    (h : (ofFraction false i' 1 : BinaryFloat .double).isFinite = true) : ∃ m e m' e',
      (ofFraction negative i 1 : BinaryFloat .double).datum = .finite negative m e ∧
        (ofFraction negative' i' 1 : BinaryFloat .double).datum = .finite negative' m' e' ∧
          (m * 2 ^ e : ℚ) ≤ m' * 2 ^ e' := by
  have hnearest : BinaryFormat.double.nearest i 1 ≤ BinaryFormat.double.nearest i' 1 := by
    refine BinaryFormat.nearest_mono Nat.one_pos Nat.one_pos ?_
    rw [Nat.cast_one, div_one, div_one]
    exact_mod_cast hle
  have hlt := isFinite_ofFraction_iff.mp h
  obtain ⟨m, e, hhas, hpattern, hdatum⟩ := exists_datum_of_isFinite Nat.one_pos
    (isFinite_ofFraction_iff.mpr (hnearest.trans_lt hlt) :
      (ofFraction negative i 1 : BinaryFloat .double).isFinite = true)
  obtain ⟨m', e', hhas', hpattern', hdatum'⟩ := exists_datum_of_isFinite Nat.one_pos
    (isFinite_ofFraction_iff.mpr hlt :
      (ofFraction negative' i' 1 : BinaryFloat .double).isFinite = true)
  rw [hpattern, hpattern'] at hnearest
  exact ⟨m, e, m', e', hdatum, hdatum', BinaryFormat.value_mono hhas hhas' hnearest⟩

/-- A product of a significand and a power of ten is finite if one of larger ones is. -/
theorem isFinite_product_mono {s s' k k' : Nat} {negative : Bool} (hs : s ≤ s') (hk : k ≤ k')
    (hs' : (ofFraction false s' 1 : BinaryFloat .double).isFinite = true)
    (hk' : (power k').isFinite = true)
    (h : ((ofFraction false s' 1 : BinaryFloat .double).product (power k')).isFinite = true) :
    ((ofFraction negative s 1 : BinaryFloat .double).product (power k)).isFinite = true := by
  obtain ⟨m, e, m', e', hdatum, hdatum', hle⟩ := exists_datum_of_le negative false hs hs'
  obtain ⟨p, q, p', q', hpower, hpower', hle'⟩ := exists_datum_of_le false false (tenTo_le hk) hk'
  obtain ⟨num, den, hden, hvalue, hproduct⟩ := product_eq hdatum hpower
  obtain ⟨num', den', hden', hvalue', hproduct'⟩ := product_eq hdatum' hpower'
  rw [power, hproduct', isFinite_ofFraction_iff] at h
  rw [power, hproduct, isFinite_ofFraction_iff]
  refine lt_of_le_of_lt (BinaryFormat.nearest_mono hden hden' ?_) h
  rw [hvalue, hvalue']
  exact mul_le_mul hle hle' (mul_nonneg (Nat.cast_nonneg _) (two_zpow_pos _).le)
    (mul_nonneg (Nat.cast_nonneg _) (two_zpow_pos _).le)

/-- The largest significands of eighteen digits and fewer that go with the largest powers
of ten. -/
theorem isFinite_largest : ∀ i < 19,
    (ofFraction false (min (10 ^ 18) (greatest / 10 ^ (290 + i))) 1 :
      BinaryFloat .double).isFinite =
      true ∧ (power (290 + i)).isFinite = true ∧
    ((ofFraction false (min (10 ^ 18) (greatest / 10 ^ (290 + i))) 1 : BinaryFloat .double).product
      (power (290 + i))).isFinite = true := by
  decide +kernel

/-- The product of a significand and a power of ten is finite if both together are not
above the decimal of the greatest number. -/
theorem isFinite_product {s k : Nat} {negative : Bool} (hs : s ≤ 10 ^ 18)
    (h : s * 10 ^ k ≤ greatest) (hk : k ≤ powerLimit) :
    ((ofFraction negative s 1 : BinaryFloat .double).product (power k)).isFinite = true := by
  obtain ⟨i, hi, hki, hle⟩ : ∃ i < 19, k ≤ 290 + i ∧ s ≤ greatest / 10 ^ (290 + i) := by
    rcases Nat.lt_or_ge k 290 with hsmall | hlarge
    · exact ⟨0, by decide, by omega, hs.trans (by decide +kernel)⟩
    · obtain ⟨i, rfl⟩ := Nat.exists_eq_add_of_le hlarge
      exact ⟨i, by rw [powerLimit] at hk; omega, le_refl _,
        (Nat.le_div_iff_mul_le (by positivity)).mpr h⟩
  obtain ⟨hfinite, hpower, hproduct⟩ := isFinite_largest i hi
  exact isFinite_product_mono (le_min hs hle) hki hfinite hpower hproduct

/-- **A numeral of eighteen digits that is not above the decimal of the greatest number
is read.** -/
theorem isSome_double? {n : Numeral} (hs : n.significand ≤ 10 ^ 18)
    (h : (n.significand * 10 ^ n.scale : ℚ) ≤ greatest) : n.double?.isSome = true := by
  rw [double?]
  split
  · rfl
  · next hneg =>
    obtain ⟨k, hk⟩ : ∃ k : ℕ, n.scale = k := ⟨n.scale.toNat, by omega⟩
    rw [hk, zpow_natCast] at h
    have hle : n.significand * 10 ^ k ≤ greatest := by exact_mod_cast h
    rw [hk, Int.toNat_natCast, timesPower?]
    split
    · next hlimit =>
      rw [Option.filter_some, if_pos (isFinite_product hs hle hlimit)]
      rfl
    · next hlimit =>
      -- Beyond all powers of ten there is only zero.
      have hzero : n.significand = 0 := by
        by_contra hne
        rw [← tenTo_eq] at hle
        have hpow : tenTo (powerLimit + 1) ≤ n.significand * tenTo k :=
          (tenTo_le (Nat.lt_of_not_le hlimit)).trans
            (Nat.le_mul_of_pos_left _ (Nat.pos_of_ne_zero hne))
        exact absurd (hpow.trans hle) (by decide +kernel)
      have hiszero : (ofFraction n.negative 0 1 : BinaryFloat .double).isZero = true := by
        cases n.negative <;> decide
      rw [hzero, if_pos hiszero]
      rfl

end KeyedSeries.Numeral

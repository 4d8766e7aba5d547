import KeyedSeries.Proofs.Json.Reading
import KeyedSeries.Proofs.Number.Text

/-!
# Stored numbers read back

A finite number is stored as a numeral (`KeyedSeries.BinaryFloat.exists_stored`), and
**every such numeral is read as some number**
(`KeyedSeries.BinaryFloat.isSome_double?_stored`). It need not be the same number, as
readers round more than once. It is the same if few digits are written
(`KeyedSeries.BinaryFloat.IsShort`): then a number of 64 bits is rounded only once
(`KeyedSeries.BinaryFloat.double?_stored`), and one of 32 bits is so far away from the
ends of its interval that rounding twice does no harm
(`KeyedSeries.BinaryFloat.single?_stored`).
-/

namespace KeyedSeries

open Numeral

/-- Seventeen digits are enough for all numbers of the format. -/
def BinaryFormat.IsNarrow (f : BinaryFormat) : Prop := twoTo (f.fractionBits + 1) < 10 ^ 16

theorem BinaryFormat.isNarrow_single : BinaryFormat.single.IsNarrow := by
  rw [IsNarrow]
  decide

theorem BinaryFormat.isNarrow_double : BinaryFormat.double.IsNarrow := by
  rw [IsNarrow]
  decide

namespace BinaryFloat

variable {f : BinaryFormat} {m : Nat} {e : Int} {negative : Bool} {n : Numeral} {text : List Char}

/-! ### What is stored -/

/-- The decimal that `m * 2 ^ e` is written as. -/
def written (f : BinaryFormat) (m : Nat) (e : Int) : ℚ :=
  if m = 0 then 0 else ((Rounding.of f m e).shortest .even).value

theorem within_written (hf : f.IsNarrow) (h : f.Has m e) (hm : 0 < m) :
    (Rounding.of f m e).Within (written f m e) := by
  rw [written, if_neg hm.ne']
  exact (Rounding.shortest_spec h hm hf).1

/-- **A finite number is stored as a numeral** of the decimal it is written as. -/
theorem exists_stored {x : BinaryFloat f} (hf : f.IsNarrow) (hx : x.datum = .finite negative m e) :
    ∃ (n : Numeral) (text : List Char), n.negative = negative ∧ n.Shows text (written f m e) 18 ∧
      x.toJson = .number n.bytes := by
  obtain ⟨n, text, hnegative, hshows, htext⟩ : ∃ (n : Numeral) (text : List Char),
      n.negative = negative ∧ n.Shows text (written f m e) 18 ∧
        (NumberStyle.stored f).finiteText f negative m e =
          (if negative then ['-'] else []) ++ text := by
    rcases Nat.eq_zero_or_pos m with rfl | hm
    · refine ⟨⟨negative, [0x30], [0x30], none⟩, ['0', '.', '0'], rfl, ?_, ?_⟩
      · have hzero : ∀ b ∈ [(0x30 : UInt8)], isDigit b = true :=
          fun b => isDigit_of_mem_zeros (k := 1)
        refine ⟨⟨hzero, .inl rfl, hzero⟩, rfl, rfl, ?_, by simp [natOf], .inr ⟨rfl, rfl⟩⟩
        simp [Numeral.value, natOf, written]
      · rw [NumberStyle.finiteText, if_pos rfl]
        rfl
    · obtain ⟨h, -⟩ := eq_ofPattern_of_datum hx
      obtain ⟨-, hpos, hfew⟩ := @Rounding.shortest_spec .even f m e h hm hf
      obtain ⟨n, hnegative, hshows⟩ := NumberStyle.exists_numeral f negative hpos hfew
      refine ⟨n, (NumberStyle.stored f).decimalText ((Rounding.of f m e).shortest .even), hnegative,
        ?_, ?_⟩
      · rw [written, if_neg hm.ne']
        exact hshows
      · rw [NumberStyle.finiteText, if_neg hm.ne']
        rfl
  refine ⟨n, text, hnegative, hshows, ?_⟩
  rw [toJson, hx]
  simp only [htext, hshows.bytes, hnegative, List.map_append]
  cases negative <;> rfl

/-- The digits of what is stored fit into 64 bits. -/
theorem fits_of_shows {v : ℚ} (h : n.Shows text v 18) :
    natOf (n.whole ++ n.fraction) < UInt64.size := lt_trans h.few (by decide)

theorem value_of_shows {v : ℚ} (h : n.Shows text v 18) :
    (n.significand * 10 ^ n.scale : ℚ) = v := by
  rw [← value_eq_of_fits (fits_of_shows h), h.value]

/-! ### Everything stored is read -/

theorem written_le (hf : f.IsNarrow) (h : f.Has m e) {c k : Nat} (hc : 2 * m + 1 ≤ c)
    (hk : e - 1 ≤ k) (hgreatest : c * 2 ^ k ≤ greatest) : written f m e ≤ greatest := by
  rcases Nat.eq_zero_or_pos m with rfl | hm
  · rw [written, if_pos rfl]
    exact Nat.cast_nonneg _
  · have hhigh := (within_written hf h hm).2.1
    rw [Rounding.high_of] at hhigh
    have hsplit := two_zpow_add 1 (e - 1)
    rw [add_sub_cancel, zpow_one] at hsplit
    have hpow : (2 : ℚ) ^ (e - 1) ≤ 2 ^ k := by
      rw [← zpow_natCast]
      exact zpow_le_zpow_right₀ (by norm_num) hk
    calc written f m e ≤ (m + 1 / 2) * 2 ^ e := hhigh
      _ = (2 * m + 1 : ℕ) * 2 ^ (e - 1) := by rw [hsplit]; push_cast; ring
      _ ≤ c * 2 ^ k := by
        exact mul_le_mul (by exact_mod_cast hc) hpow (two_zpow_pos _).le (Nat.cast_nonneg c)
      _ ≤ greatest := by exact_mod_cast hgreatest

/-- No number of 64 bits is written as a decimal above the one of the greatest number. -/
theorem written_double_le (h : BinaryFormat.double.Has m e) : written .double m e ≤ greatest := by
  have hlt := h.lt
  have hnormal := h.normal
  have hfinite := h.finite
  have hleast : BinaryFormat.double.leastExponent = -1074 := rfl
  have hinfinity : BinaryFormat.double.infinityPattern = 2047 * 4503599627370496 := rfl
  have hbits : twoTo BinaryFormat.double.fractionBits = 4503599627370496 := rfl
  have htop : twoTo (BinaryFormat.double.fractionBits + 1) = 9007199254740992 := rfl
  rw [BinaryFormat.pattern, hleast, hinfinity, hbits] at hfinite
  rw [hleast, hbits] at hnormal
  rw [htop] at hlt
  by_cases hlast : e = 971 ∧ m = 9007199254740991
  · obtain ⟨rfl, rfl⟩ := hlast
    have hshortest : (Rounding.of .double 9007199254740991 971).shortest .even =
        ⟨17976931348623157, 292⟩ := by decide +kernel
    rw [written, if_neg (by decide), hshortest, Decimal.value, greatest]
    norm_num
  · rcases eq_or_lt_of_le (show e ≤ 971 by omega) with rfl | hbelow
    · exact written_le BinaryFormat.isNarrow_double h (c := 18014398509481981) (k := 970) (by omega)
        (by norm_num) (by decide +kernel)
    · exact written_le BinaryFormat.isNarrow_double h (c := 18014398509481983) (k := 969) (by omega)
        (by omega) (by decide +kernel)

theorem written_single_le (h : BinaryFormat.single.Has m e) : written .single m e ≤ greatest := by
  have hbounds := BinaryFormat.single_bounds h
  exact written_le BinaryFormat.isNarrow_single h (c := 33554432) (k := 103) (by omega)
    (by omega) (by decide +kernel)

/-- **Whatever is stored is read as some number.** -/
theorem isSome_double?_stored {v : ℚ} (h : n.Shows text v 18) (hv : v ≤ greatest) :
    n.double?.isSome = true := by
  refine isSome_double? ?_ (value_of_shows h ▸ hv)
  rw [significand_of_fits (fits_of_shows h)]
  exact h.few.le

/-! ### Short numbers -/

/-- The number is written with fifteen digits at most, and with so many places behind
the point at most. -/
def IsShort (places : Nat) (x : BinaryFloat f) : Prop :=
  ∃ (negative : Bool) (m : Nat) (e : Int) (digits j : Nat), x.datum = .finite negative m e ∧
    digits < 10 ^ 15 ∧ j ≤ places ∧ written f m e * 10 ^ j = digits

/-- Digits that do not end in zero have none behind the last place that is needed. -/
theorem exists_place_of_last {s digits j : ℕ} {scale : ℤ} (hlast : ¬10 ∣ s)
    (heq : (s * 10 ^ scale * 10 ^ j : ℚ) = digits) :
    ∃ k : ℕ, scale + j = k ∧ s * 10 ^ k = digits := by
  have hpow := Rounding.ten_zpow_add scale j
  have hplaces : 0 ≤ scale + j := by
    by_contra hneg
    obtain ⟨k, hk⟩ : ∃ k : ℕ, scale + j = -((k + 1 : ℕ) : ℤ) :=
      ⟨(-(scale + j) - 1).toNat, by omega⟩
    have hshift : (s : ℚ) = (10 * (10 ^ k * digits) : ℕ) := by
      rw [hk, zpow_neg, zpow_natCast, zpow_natCast, pow_succ] at hpow
      push_cast
      rw [← heq, mul_assoc (s : ℚ), ← hpow]
      field_simp
    have hdvd : s = 10 * (10 ^ k * digits) := by exact_mod_cast hshift
    exact hlast ⟨_, hdvd⟩
  obtain ⟨k, hk⟩ : ∃ k : ℕ, scale + j = k := ⟨(scale + j).toNat, by omega⟩
  refine ⟨k, hk, ?_⟩
  rw [hk, zpow_natCast, zpow_natCast] at hpow
  rw [mul_assoc, ← hpow] at heq
  exact_mod_cast heq

/-- Few digits and few places make a significand and a scale that need no rounding. -/
theorem exists_core {v : ℚ} (h : n.Shows text v 18) (hv : 0 < v) {digits j : Nat}
    (hdigits : digits < 10 ^ 15) (hj : j ≤ 22) (heq : v * 10 ^ j = digits) :
    ∃ core a, 0 < core ∧ core < 2 ^ 53 ∧ a ≤ 100 ∧ n.significand = core * 2 ^ a ∧
      n.scale.natAbs ≤ 22 := by
  have hvalue := value_of_shows h
  have hsignificand := significand_of_fits (fits_of_shows h)
  have hscale := scale_of_fits (fits_of_shows h)
  have hpos : 0 < n.significand := by
    refine Nat.pos_of_ne_zero fun hzero => ?_
    rw [hzero, Nat.cast_zero, zero_mul] at hvalue
    exact hv.ne hvalue
  rw [← hvalue] at heq
  rcases h.last with hlast | ⟨hpoint, hnone⟩
  · -- The last digit is no zero, and so all digits are needed.
    rw [← hsignificand] at hlast
    obtain ⟨k, hk, hproduct⟩ := exists_place_of_last hlast heq
    have hk' : k < 15 := by
      by_contra hge
      have := Nat.pow_le_pow_right (n := 10) (by decide) (Nat.le_of_not_lt hge)
      have := Nat.le_mul_of_pos_left (10 ^ k) hpos
      omega
    have hle : n.significand ≤ digits := hproduct ▸ Nat.le_mul_of_pos_right _ (by positivity)
    exact ⟨n.significand, 0, hpos, by omega, by decide, by simp, by omega⟩
  · -- A zero behind the point makes the significand even.
    have hscale' : n.scale = -1 := by
      rw [hscale, hpoint, hnone]
      rfl
    have hten : n.significand = 10 * natOf n.whole := by
      rw [hsignificand, hpoint, natOf_append]
      simp [natOf]
      ring
    have hwhole : natOf n.whole * 10 ^ j = digits := by
      rw [hten, hscale'] at heq
      have hcancel : ((10 * natOf n.whole : ℕ) * 10 ^ (-1 : ℤ) * 10 ^ j : ℚ) =
          natOf n.whole * 10 ^ j := by
        push_cast
        rw [zpow_neg_one]
        field_simp
      rw [hcancel] at heq
      exact_mod_cast heq
    have hle : natOf n.whole ≤ digits := hwhole ▸ Nat.le_mul_of_pos_right _ (by positivity)
    exact ⟨5 * natOf n.whole, 1, by omega, by omega, by decide, by omega, by omega⟩

/-- A short number other than zero is read as the number of 64 bits nearest to the decimal
it is written as. -/
theorem double?_eq_of_short {v : ℚ} (h : n.Shows text v 18) (hv : 0 < v) {digits j : Nat}
    (hdigits : digits < 10 ^ 15) (hj : j ≤ 22) (heq : v * 10 ^ j = digits) :
    ∃ num den : ℕ, 0 < num ∧ 0 < den ∧ (num / den : ℚ) = v ∧
      (ofFraction n.negative num den : BinaryFloat .double).isFinite = true ∧
        n.double? = some (ofFraction n.negative num den) := by
  obtain ⟨core, a, hcore, hlt, ha, hsignificand, hscale⟩ := exists_core h hv hdigits hj heq
  obtain ⟨num, den, hden, hvalue, hread⟩ := double?_of_exact hcore hlt ha hsignificand hscale
  rw [value_of_shows h] at hvalue
  have hden' : (0 : ℚ) < den := by exact_mod_cast hden
  have hnum : 0 < num := by
    rw [← hvalue] at hv
    have := (div_pos_iff_of_pos_right hden').mp hv
    exact_mod_cast this
  have hfinite : (ofFraction n.negative num den : BinaryFloat .double).isFinite = true := by
    have hbound :
        BinaryFormat.double.nearest (10 ^ 15) 1 < BinaryFormat.double.infinityPattern := by
      decide +kernel
    refine isFinite_ofFraction_iff.mpr (lt_of_le_of_lt ?_ hbound)
    refine BinaryFormat.nearest_mono hden Nat.one_pos ?_
    have hle : v ≤ digits := by
      rw [← heq]
      exact le_mul_of_one_le_right hv.le (one_le_pow₀ (by norm_num))
    rw [hvalue, Nat.cast_one, div_one]
    exact hle.trans (by exact_mod_cast hdigits.le)
  exact ⟨num, den, hnum, hden, hvalue, hfinite, hread hfinite⟩

/-- Zero is read as zero with its sign. -/
theorem double?_of_zero (h : n.Shows text 0 18) : n.double? = some (ofPattern n.negative 0) := by
  have hvalue := value_of_shows h
  have hsignificand : n.significand = 0 := by
    have hzero := (mul_eq_zero.mp hvalue).resolve_right (Rounding.ten_zpow_pos _).ne'
    exact_mod_cast hzero
  have hscale : n.scale = -1 := by
    have hlast := h.last
    rw [← significand_of_fits (fits_of_shows h), hsignificand] at hlast
    obtain ⟨hpoint, hnone⟩ := hlast.resolve_left (not_not_intro (dvd_zero 10))
    rw [scale_of_fits (fits_of_shows h), hpoint, hnone]
    rfl
  rw [double?, hsignificand, hscale]
  cases n.negative <;> decide +kernel

theorem eq_ofPattern_zero {x : BinaryFloat f} (hx : x.datum = .finite negative 0 e) :
    x = ofPattern negative 0 := by
  obtain ⟨h, rfl⟩ := eq_ofPattern_of_datum hx
  obtain rfl : e = f.leastExponent :=
    h.normal.resolve_right (Nat.not_le.mpr (twoTo_pos f.fractionBits))
  simp [BinaryFormat.pattern]

/-- **A short number of 64 bits is read back.** -/
theorem double?_stored {x : BinaryFloat .double} (hx : x.datum = .finite n.negative m e)
    (hshort : x.IsShort 22) (h : n.Shows text (written .double m e) 18) : n.double? = some x := by
  obtain ⟨negative', m', e', digits, j, hx', hdigits, hj, heq⟩ := hshort
  obtain ⟨-, rfl, rfl⟩ : n.negative = negative' ∧ m = m' ∧ e = e' := by simpa [hx] using hx'
  obtain ⟨hhas, -⟩ := eq_ofPattern_of_datum hx
  rcases Nat.eq_zero_or_pos m with rfl | hm
  · rw [written, if_pos rfl] at h
    rw [double?_of_zero h, ← eq_ofPattern_zero hx]
  · have hwithin := within_written BinaryFormat.isNarrow_double hhas hm
    obtain ⟨num, den, -, hden, hvalue, -, hread⟩ :=
      double?_eq_of_short h (hwithin.pos hm) hdigits hj heq
    rw [hread, ofFraction_of_within hx hm hden (hvalue ▸ hwithin)]

/-! ### Rounding twice -/

/-- Two numbers over a common denominator are at least its inverse apart. -/
theorem lt_distance {v w d c : ℚ} {z : ℤ} (hc : 0 < c) (hz : (v - w) * c = z) (hne : v ≠ w)
    (hsmall : d * c < 1) : d < |v - w| := by
  have hz' : z ≠ 0 := by
    rintro rfl
    rw [Int.cast_zero] at hz
    exact hne (sub_eq_zero.mp ((mul_eq_zero.mp hz).resolve_right hc.ne'))
  have hone : (1 : ℚ) ≤ |(z : ℚ)| := by exact_mod_cast Int.one_le_abs hz'
  rw [← hz, abs_mul, abs_of_pos hc] at hone
  exact lt_of_mul_lt_mul_right (hsmall.trans_le hone) hc.le

/-- A number with few places is not nearer to a multiple of a power of two, if that is
another number, than it is rounded when it is read. -/
theorem error_lt {v : ℚ} {digits j a : Nat} {s : Int} (hdigits : digits < 10 ^ 15) (hj : j ≤ 8)
    (heq : v * 10 ^ j = digits) (hbound : v < 2 ^ 26 * 2 ^ s) (hne : v ≠ a * 2 ^ s) :
    v * 2 ^ (-53 : ℤ) < |v - a * 2 ^ s| := by
  have hten : (0 : ℚ) < 10 ^ j := by positivity
  rcases lt_or_ge s 0 with hneg | hnonneg
  · obtain ⟨k, hk⟩ : ∃ k : ℕ, s = -(k : ℤ) := ⟨(-s).toNat, by omega⟩
    have htwo : (0 : ℚ) < 2 ^ k := by positivity
    have hs : (2 : ℚ) ^ s * 2 ^ k = 1 := by
      rw [hk, zpow_neg, zpow_natCast, inv_mul_cancel₀ htwo.ne']
    refine lt_distance (c := 10 ^ j * 2 ^ k) (z := digits * 2 ^ k - a * 10 ^ j) (by positivity) ?_
      hne ?_
    · calc (v - a * 2 ^ s) * (10 ^ j * 2 ^ k) =
            v * 10 ^ j * 2 ^ k - a * 10 ^ j * (2 ^ s * 2 ^ k) := by ring
        _ = ((digits * 2 ^ k - a * 10 ^ j : ℤ) : ℚ) := by
          rw [heq, hs, mul_one]
          push_cast
          rfl
    · have hv : v * 2 ^ k ≤ 2 ^ 26 := by
        have := mul_lt_mul_of_pos_right hbound htwo
        rw [mul_assoc, hs, mul_one] at this
        exact this.le
      have hj' : (10 : ℚ) ^ j ≤ 10 ^ 8 := pow_le_pow_right₀ (by norm_num) hj
      calc v * 2 ^ (-53 : ℤ) * (10 ^ j * 2 ^ k) = v * 2 ^ k * 10 ^ j * 2 ^ (-53 : ℤ) := by ring
        _ ≤ 2 ^ 26 * 10 ^ 8 * 2 ^ (-53 : ℤ) := by
          refine mul_le_mul_of_nonneg_right ?_ (by positivity)
          exact mul_le_mul hv hj' hten.le (by positivity)
        _ < 1 := by norm_num
  · obtain ⟨k, rfl⟩ : ∃ k : ℕ, s = k := ⟨s.toNat, by omega⟩
    refine lt_distance (z := digits - a * 2 ^ k * 10 ^ j) hten ?_ hne ?_
    · rw [sub_mul, heq, zpow_natCast]
      push_cast
      rfl
    · have hd : (digits : ℚ) ≤ 10 ^ 15 := by exact_mod_cast hdigits.le
      calc v * 2 ^ (-53 : ℤ) * 10 ^ j = digits * 2 ^ (-53 : ℤ) := by rw [← heq]; ring
        _ ≤ 10 ^ 15 * 2 ^ (-53 : ℤ) := mul_le_mul_of_nonneg_right hd (by positivity)
        _ < 1 := by norm_num

/-- What a positive fraction that is not very small is rounded to, and how far. -/
theorem exists_datum_near {num den : Nat} (negative : Bool) (hnum : 0 < num) (hden : 0 < den)
    (hsmall : (10 : ℚ) ^ (-8 : ℤ) ≤ num / den)
    (hfinite : (ofFraction negative num den : BinaryFloat .double).isFinite = true) : ∃ m e,
      (ofFraction negative num den : BinaryFloat .double).datum = .finite negative m e ∧
        |(m * 2 ^ e - num / den : ℚ)| ≤ num / den * 2 ^ (-53 : ℤ) := by
  obtain ⟨m, e, hhas, hnearest, q, hnear, hplace⟩ :=
    BinaryFormat.exists_has_nearest hnum hden (isFinite_ofFraction_iff.mp hfinite)
  refine ⟨m, e, by rw [ofFraction, hnearest, datum_ofPattern hhas], hnear.trans ?_⟩
  have hhalf : ∀ q : ℤ, (2 : ℚ) ^ q / 2 = 2 ^ (q + 52) * 2 ^ (-53 : ℤ) := fun q => by
    rw [← two_zpow_add, div_eq_mul_inv, ← zpow_neg_one, ← two_zpow_add]
    congr 1
    ring
  have hplace' : (2 : ℚ) ^ (q + 52) ≤ num / den := by
    rcases hplace with rfl | htop
    · refine le_trans ?_ hsmall
      have hleast : BinaryFormat.double.leastExponent = -1074 := rfl
      calc (2 : ℚ) ^ (BinaryFormat.double.leastExponent + 52) ≤ 2 ^ (-27 : ℤ) := by
            rw [hleast]
            exact zpow_le_zpow_right₀ (by norm_num) (by norm_num)
        _ ≤ 10 ^ (-8 : ℤ) := by norm_num
    · exact htop
  rw [hhalf]
  exact mul_le_mul_of_nonneg_right hplace' (two_zpow_pos _).le

/-- The ends of an interval are multiples of a quarter of a unit. -/
theorem exists_ends (hm : 0 < m) : ∃ a b : ℕ, b = 4 * m + 2 ∧ a < b ∧
    ((Rounding.of f m e).low / (Rounding.of f m e).den : ℚ) = a * 2 ^ (e - 2) ∧
      ((Rounding.of f m e).high / (Rounding.of f m e).den : ℚ) = b * 2 ^ (e - 2) := by
  have hsplit : (2 : ℚ) ^ e = 4 * 2 ^ (e - 2) := by
    have h := two_zpow_add 2 (e - 2)
    rw [add_sub_cancel] at h
    rw [h]
    norm_num
  have hm' : 1 ≤ 4 * m ∧ 2 ≤ 4 * m := by omega
  refine ⟨4 * m - if m = twoTo f.fractionBits ∧ f.leastExponent < e then 1 else 2, 4 * m + 2, rfl,
    by omega, ?_, ?_⟩
  · rw [Rounding.low_of hm, hsplit]
    split
    · rw [Nat.cast_sub hm'.1]
      push_cast
      ring
    · rw [Nat.cast_sub hm'.2]
      push_cast
      ring
  · rw [Rounding.high_of, hsplit]
    push_cast
    ring

/-- A short number is rounded to the same side of an end of an interval on which it is,
and to the end only if it is there. -/
theorem sides_of_short {v w : ℚ} {digits j a : Nat} {s : Int}
    (hdigits : digits < 10 ^ 15) (hj : j ≤ 8) (heq : v * 10 ^ j = digits)
    (hbound : v < 2 ^ 26 * 2 ^ s) (hnear : |w - v| ≤ v * 2 ^ (-53 : ℤ))
    (hexact : v = a * 2 ^ s → w = v) : (v ≤ a * 2 ^ s ↔ w ≤ a * 2 ^ s) ∧
      (a * 2 ^ s ≤ v ↔ a * 2 ^ s ≤ w) ∧ (w = a * 2 ^ s → v = a * 2 ^ s) := by
  by_cases hend : v = a * 2 ^ s
  · rw [hexact hend]
    exact ⟨Iff.rfl, Iff.rfl, fun _ => hend⟩
  · have herror := error_lt hdigits hj heq hbound hend
    have hclose := abs_le.mp hnear
    rcases lt_or_gt_of_ne hend with hlt | hgt
    · rw [abs_of_neg (sub_neg.mpr hlt)] at herror
      have hlt' : w < a * 2 ^ s := by linarith
      exact ⟨iff_of_true hlt.le hlt'.le, iff_of_false hlt.not_ge hlt'.not_ge,
        fun h => absurd h hlt'.ne⟩
    · rw [abs_of_pos (sub_pos.mpr hgt)] at herror
      have hgt' : a * 2 ^ s < w := by linarith
      exact ⟨iff_of_false hgt.not_ge hgt'.not_ge, iff_of_true hgt.le hgt'.le,
        fun h => absurd h hgt'.ne'⟩

theorem le_of_places {v : ℚ} {digits j : Nat} (hv : 0 < v) (hj : j ≤ 8)
    (heq : v * 10 ^ j = digits) : (10 : ℚ) ^ (-8 : ℤ) ≤ v := by
  have hone : (1 : ℚ) ≤ v * 10 ^ j := by
    have hpos : (0 : ℚ) < digits := heq ▸ mul_pos hv (by positivity)
    rw [heq]
    exact_mod_cast hpos
  have hle : v * 10 ^ j ≤ v * 10 ^ 8 :=
    mul_le_mul_of_nonneg_left (pow_le_pow_right₀ (by norm_num) hj) hv.le
  norm_num at hle ⊢
  linarith

/-- **A short number of 32 bits is read back**, although it is rounded to 64 bits first. -/
theorem single?_stored {x : BinaryFloat .single} (hx : x.datum = .finite n.negative m e)
    (hshort : x.IsShort 8) (h : n.Shows text (written .single m e) 18) : n.single? = some x := by
  obtain ⟨negative', m', e', digits, j, hx', hdigits, hj, heq⟩ := hshort
  obtain ⟨-, rfl, rfl⟩ : n.negative = negative' ∧ m = m' ∧ e = e' := by simpa [hx] using hx'
  have hint : n.int?.filter isWord = none := by
    rw [int?, h.notWhole]
    rfl
  rw [single?, hint]
  obtain ⟨hhas, -⟩ := eq_ofPattern_of_datum hx
  rcases Nat.eq_zero_or_pos m with rfl | hm
  · rw [written, if_pos rfl] at h
    rw [double?_of_zero h, eq_ofPattern_zero hx]
    cases n.negative <;> decide +kernel
  · have hwithin := within_written BinaryFormat.isNarrow_single hhas hm
    have hv := hwithin.pos hm
    obtain ⟨num, den, hnum, hden, hvalue, hfinite, hread⟩ :=
      double?_eq_of_short h hv hdigits (hj.trans (by decide)) heq
    rw [← hvalue] at hwithin hv heq
    obtain ⟨m', e', hdatum, hnear⟩ :=
      exists_datum_near n.negative hnum hden (le_of_places hv hj heq) hfinite
    obtain ⟨num', den', hden', hvalue', hconvert⟩ := convert_eq (g := .single) hdatum
    rw [hread, Option.map_some, hconvert]
    refine congrArg some (ofFraction_of_within hx hm hden' ?_)
    rw [hvalue']
    obtain ⟨a, b, hb, hab, hlow, hhigh⟩ := exists_ends (f := .single) (e := e) hm
    obtain ⟨hlt, hleast, hgreatest⟩ := BinaryFormat.single_bounds hhas
    -- An end of the interval is not rounded at all.
    have hexact : ∀ c : ℕ, c ≤ b → (num / den : ℚ) = c * 2 ^ (e - 2) →
        (m' * 2 ^ e' : ℚ) = num / den := by
      intro c hc hend
      have hpos : 0 < c := by
        rw [hend] at hv
        exact_mod_cast pos_of_mul_pos_left hv (two_zpow_pos _).le
      have hbits : c < 2 ^ 53 := by omega
      exact value_ofFraction_of_few (f := .double) hpos hbits
        (by change -1074 + 52 ≤ e - 2; omega) (by change e - 2 + 2 ≤ -1074 + 2047; omega)
        hden hend hdatum
    rw [Rounding.Within, hlow, hhigh] at hwithin ⊢
    obtain ⟨hge, hle, hclosed⟩ := hwithin
    have hbound : (num / den : ℚ) < 2 ^ 26 * 2 ^ (e - 2) := by
      refine hle.trans_lt (mul_lt_mul_of_pos_right ?_ (two_zpow_pos _))
      have hb' : b < 2 ^ 26 := by omega
      exact_mod_cast hb'
    obtain ⟨-, hlower, hlower'⟩ := sides_of_short hdigits hj heq hbound hnear (hexact a hab.le)
    obtain ⟨hupper, -, hupper'⟩ := sides_of_short hdigits hj heq hbound hnear (hexact b (le_refl b))
    exact ⟨hlower.mp hge, hupper.mp hle,
      fun hends => hclosed (hends.imp (fun h => (hlower' h.symm).symm) hupper')⟩

end BinaryFloat

end KeyedSeries

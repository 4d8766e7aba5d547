import Mathlib.Data.Nat.Cast.Order.Field
import KeyedSeries.Proofs.Number.Rounding

/-!
# The shortest decimal is in the interval

The decimals with their last digit at one place are a grid, and a number lies between
two points of it (`KeyedSeries.Rounding.gridFloor_le`). Where the grid is so fine that
half a step is shorter than the interval reaches, the nearer one of the two is inside.
A number of up to sixteen digits always has such a grid within the first seventeen
places, so **the search finds a decimal that is read as the number**
(`KeyedSeries.Rounding.shortest_spec`).
-/

namespace KeyedSeries

/-- The number that a decimal stands for. -/
def Decimal.value (d : Decimal) : ℚ := d.digits * 10 ^ d.exponent

namespace Rounding

theorem ten_zpow_pos (t : Int) : (0 : ℚ) < 10 ^ t := zpow_pos (by norm_num) t

theorem ten_zpow_add (a b : Int) : (10 : ℚ) ^ (a + b) = 10 ^ a * 10 ^ b :=
  zpow_add₀ (by norm_num) a b

/-! ### The leading digit -/

/-- A whole number lies between the powers of ten that its digits are counted by. -/
theorem digitCount_spec {n : Nat} (hn : 0 < n) :
    (10 : ℚ) ^ (digitCount n - 1 : ℤ) ≤ n ∧ (n : ℚ) + 1 ≤ 10 ^ (digitCount n : ℤ) := by
  obtain ⟨c, hc⟩ : ∃ c, digitCount n = c + 1 := by
    refine Nat.exists_eq_succ_of_ne_zero fun hzero => ?_
    have h := (Nat.length_toDigits_le_iff (b := 10) (n := n) (k := 1) (by decide) (by decide)).mp
    have hpos := List.length_pos_iff.mpr (Nat.toDigits_ne_nil (b := 10) (n := n))
    exact absurd hzero hpos.ne'
  have hlow : 10 ^ c ≤ n := by
    rcases Nat.eq_zero_or_pos c with rfl | hpos
    · exact hn
    · by_contra hlt
      have h := (Nat.length_toDigits_le_iff (b := 10) (n := n) (by decide) hpos).mpr (by omega)
      rw [digitCount] at hc
      omega
  have hhigh : n < 10 ^ (c + 1) :=
    (Nat.length_toDigits_le_iff (by decide) (by omega)).mp hc.le
  rw [hc]
  push_cast
  rw [add_sub_cancel_right]
  exact ⟨by exact_mod_cast hlow, by exact_mod_cast hhigh⟩

variable {r : Rounding} {tie : Tie}

/-- From one on, the whole part has as many digits. -/
theorem leadingExponent_spec_of_le (hden : 0 < r.den) (hle : r.den ≤ r.value) :
    (10 : ℚ) ^ r.leadingExponent ≤ r.value / r.den ∧
      (r.value / r.den : ℚ) < 10 ^ (r.leadingExponent + 1) := by
  have hden' : (0 : ℚ) < r.den := by exact_mod_cast hden
  obtain ⟨hlow, hhigh⟩ := digitCount_spec (Nat.div_pos hle hden)
  have hdiv := Nat.div_add_mod r.value r.den
  have hmod := Nat.mod_lt r.value hden
  have hfloor : ((r.value / r.den : ℕ) : ℚ) ≤ r.value / r.den := Nat.cast_div_le
  have hceil : (r.value / r.den : ℚ) < (r.value / r.den : ℕ) + 1 := by
    rw [div_lt_iff₀ hden']
    have h : r.value < (r.value / r.den + 1) * r.den := by
      rw [Nat.add_mul, Nat.one_mul, Nat.mul_comm]
      omega
    exact_mod_cast h
  rw [leadingExponent, if_pos hle, sub_add_cancel]
  exact ⟨le_trans hlow hfloor, lt_of_lt_of_le hceil hhigh⟩

/-- Below one, the inverse, rounded up, is one more than a number with as many digits. -/
theorem leadingExponent_spec_of_lt (hvalue : 0 < r.value) (hlt : ¬r.den ≤ r.value) :
    (10 : ℚ) ^ r.leadingExponent ≤ r.value / r.den ∧
      (r.value / r.den : ℚ) < 10 ^ (r.leadingExponent + 1) := by
  have hden' : (0 : ℚ) < r.den := by exact_mod_cast (hvalue.trans (Nat.lt_of_not_le hlt))
  have hvalue' : (0 : ℚ) < r.value := by exact_mod_cast hvalue
  obtain ⟨c, hc⟩ : ∃ c, c = (r.den + r.value - 1) / r.value := ⟨_, rfl⟩
  have hdiv := Nat.div_add_mod (r.den + r.value - 1) r.value
  have hmod := Nat.mod_lt (r.den + r.value - 1) hvalue
  rw [← hc] at hdiv
  have hceil : r.den ≤ r.value * c := by omega
  have hfloor : r.value * c < r.den + r.value := by omega
  have hone : 1 < c := by
    by_contra hle
    have := Nat.mul_le_mul_left r.value (Nat.le_of_not_lt hle)
    omega
  obtain ⟨hlow, hhigh⟩ := digitCount_spec (Nat.sub_pos_of_lt hone)
  rw [Nat.cast_sub hone.le, Nat.cast_one] at hlow hhigh
  rw [sub_add_cancel] at hhigh
  have hceil' : (r.den : ℚ) ≤ r.value * c := by exact_mod_cast hceil
  have hfloor' : (r.value : ℚ) * (c - 1) < r.den := by
    have h : (r.value * c : ℚ) < r.den + r.value := by exact_mod_cast hfloor
    linarith
  obtain ⟨k, hk⟩ : ∃ k : ℤ, k = digitCount (c - 1) := ⟨_, rfl⟩
  rw [← hk] at hlow hhigh
  rw [leadingExponent, if_neg hlt, ← hc, ← hk, div_lt_iff₀ hden', le_div_iff₀ hden', zpow_neg,
    inv_mul_le_iff₀ (ten_zpow_pos k)]
  constructor
  · calc (r.den : ℚ) ≤ r.value * c := hceil'
      _ ≤ 10 ^ k * r.value := by rw [mul_comm]; exact mul_le_mul_of_nonneg_right hhigh hvalue'.le
  · have hone : (10 : ℚ) ^ (-k + 1) * 10 ^ (k - 1) = 1 := by
      rw [← ten_zpow_add]
      simp
    calc (r.value : ℚ) = 10 ^ (-k + 1) * (r.value * 10 ^ (k - 1)) := by
          rw [mul_left_comm, hone, mul_one]
      _ ≤ 10 ^ (-k + 1) * (r.value * (c - 1)) := by
        refine mul_le_mul_of_nonneg_left ?_ (ten_zpow_pos _).le
        exact mul_le_mul_of_nonneg_left hlow hvalue'.le
      _ < 10 ^ (-k + 1) * r.den := mul_lt_mul_of_pos_left hfloor' (ten_zpow_pos _)

/-- **The leading digit of a number is found.** -/
theorem leadingExponent_spec (hden : 0 < r.den) (hvalue : 0 < r.value) :
    (10 : ℚ) ^ r.leadingExponent ≤ r.value / r.den ∧
      (r.value / r.den : ℚ) < 10 ^ (r.leadingExponent + 1) := by
  by_cases hle : r.den ≤ r.value
  · exact leadingExponent_spec_of_le hden hle
  · exact leadingExponent_spec_of_lt hvalue hle

/-! ### Grids -/

/-- The last point of a grid that is not above the number. -/
def gridFloor (r : Rounding) (t : Int) : Nat :=
  r.value * tenTo (-t).toNat / (r.den * tenTo t.toNat)

/-- A point of a grid. -/
theorem grid_point (k : Nat) (t : Int) :
    ((k * tenTo t.toNat : ℕ) : ℚ) / (tenTo (-t).toNat : ℕ) = k * 10 ^ t := by
  rw [zpow_eq_div 10 (by norm_num) t]
  push_cast [tenTo_eq]
  rw [mul_div_assoc]

/-- The number lies between two points of the grid. -/
theorem gridFloor_spec (hden : 0 < r.den) (t : Int) :
    (r.gridFloor t * 10 ^ t : ℚ) ≤ r.value / r.den ∧
      (r.value / r.den : ℚ) < (r.gridFloor t + 1) * 10 ^ t := by
  have hden' : (0 : ℚ) < r.den := by exact_mod_cast hden
  have hu : 0 < tenTo t.toNat := by rw [tenTo_eq]; positivity
  have hv : 0 < tenTo (-t).toNat := by rw [tenTo_eq]; positivity
  have hv' : (0 : ℚ) < tenTo (-t).toNat := by exact_mod_cast hv
  obtain ⟨k, hk⟩ : ∃ k, k = r.gridFloor t := ⟨_, rfl⟩
  have hdiv := Nat.div_add_mod (r.value * tenTo (-t).toNat) (r.den * tenTo t.toNat)
  have hmod := Nat.mod_lt (r.value * tenTo (-t).toNat) (Nat.mul_pos hden hu)
  rw [gridFloor] at hk
  rw [← hk] at hdiv
  have hpoint := grid_point (k + 1) t
  rw [Nat.cast_succ] at hpoint
  rw [gridFloor, ← hk, ← grid_point, ← hpoint, div_le_div_iff₀ hv' hden', div_lt_div_iff₀ hden' hv']
  constructor
  · have h : k * tenTo t.toNat * r.den ≤ r.value * tenTo (-t).toNat := by
      have hcomm : r.den * tenTo t.toNat * k = k * tenTo t.toNat * r.den := by ring
      omega
    exact_mod_cast h
  · have h : r.value * tenTo (-t).toNat < (k + 1) * tenTo t.toNat * r.den := by
      have hcomm : (k + 1) * tenTo t.toNat * r.den =
          r.den * tenTo t.toNat * k + r.den * tenTo t.toNat := by ring
      omega
    exact_mod_cast h

/-- Whether a point of a grid lies in the interval. -/
theorem contains_grid_iff (hden : 0 < r.den) (k : Nat) (t : Int) :
    r.contains (k * tenTo t.toNat) (tenTo (-t).toNat) = true ↔ r.Within (k * 10 ^ t) := by
  have hv : 0 < tenTo (-t).toNat := by rw [tenTo_eq]; positivity
  rw [contains_iff hden hv, grid_point]

theorem nearer_eq (tie : Tie) (r : Rounding) (k u v : Nat) :
    r.nearer tie k u v = k ∨ r.nearer tie k u v = k + 1 := by
  rw [nearer.eq_def]
  split
  · exact .inl rfl
  · exact .inr rfl
  · cases tie with
    | up => exact .inr rfl
    | even =>
      rcases Nat.mod_two_eq_zero_or_one k with h | h
      · exact .inl (by simp [h])
      · exact .inr (by simp [h])

/-- **What a grid gives** is one of the two points around the number, and inside. -/
theorem onGrid?_spec (hden : 0 < r.den) {t : Int} {d : Decimal} (h : r.onGrid? tie t = some d) :
    d.exponent = t ∧ r.Within d.value ∧
      (d.digits = r.gridFloor t ∨ d.digits = r.gridFloor t + 1) := by
  have hlower := contains_grid_iff hden (r.gridFloor t) t
  have hupper := contains_grid_iff hden (r.gridFloor t + 1) t
  simp only [onGrid?] at h
  rw [← gridFloor] at h
  split at h
  · next hboth =>
    rw [Bool.and_eq_true] at hboth
    cases h
    rcases nearer_eq tie r (r.gridFloor t) (tenTo t.toNat) (tenTo (-t).toNat) with heq | heq
    · exact ⟨rfl, by simpa [Decimal.value, heq] using hlower.mp hboth.1, .inl heq⟩
    · exact ⟨rfl, by simpa [Decimal.value, heq] using hupper.mp hboth.2, .inr heq⟩
  · split at h
    · next hlow =>
      cases h
      exact ⟨rfl, hlower.mp hlow, .inl rfl⟩
    · split at h
      · next hup =>
        cases h
        exact ⟨rfl, hupper.mp hup, .inr rfl⟩
      · cases h

/-- A grid gives something when one of the two points is inside. -/
theorem isSome_onGrid? (hden : 0 < r.den) {t : Int}
    (h : r.Within (r.gridFloor t * 10 ^ t) ∨ r.Within ((r.gridFloor t + 1 : ℕ) * 10 ^ t)) :
    (r.onGrid? tie t).isSome = true := by
  rw [← contains_grid_iff hden, ← contains_grid_iff hden] at h
  simp only [onGrid?]
  rw [← gridFloor]
  rcases h with h | h
  · rw [h]
    split <;> rfl
  · rw [h]
    split
    · rfl
    · split <;> rfl

/-- The search stops at the first grid that gives something. -/
theorem search_eq {t : Int} {more i : Nat} (hi : i < more)
    (h : (r.onGrid? tie (t - i)).isSome = true) :
    ∃ j ≤ i, r.onGrid? tie (t - j) = some (r.search tie t more) := by
  induction more generalizing t i with
  | zero => omega
  | succ more ih =>
    rw [search]
    cases hfirst : r.onGrid? tie t with
    | some d => exact ⟨0, Nat.zero_le i, by simpa using hfirst⟩
    | none =>
      obtain ⟨i, rfl⟩ : ∃ k, i = k + 1 := by
        refine Nat.exists_eq_succ_of_ne_zero fun hzero => ?_
        simp [hzero, hfirst] at h
      have hshift : ∀ k : Nat, t - (k + 1 : ℕ) = t - 1 - k := fun k => by
        push_cast
        ring
      rw [hshift] at h
      obtain ⟨j, hj, heq⟩ := ih (by omega) h
      exact ⟨j + 1, by omega, by rw [hshift]; exact heq⟩

/-! ### Fine grids -/

section OfNumber

variable {f : BinaryFormat} {m : Nat} {e : Int}

theorem value_pos (hm : 0 < m) : 0 < (of f m e).value :=
  Nat.mul_pos (Nat.mul_pos (by decide) hm) (twoTo_pos _)

/-- A grid whose step is the number's sixteenth decimal place or finer has a point in
the interval. -/
theorem isSome_onGrid?_of_fine (h : f.Has m e) (hm : 0 < m)
    (hf : twoTo (f.fractionBits + 1) < 10 ^ 16) {t : Int}
    (ht : (10 : ℚ) ^ (t + 16) ≤ m * 2 ^ e) : ((of f m e).onGrid? tie t).isSome = true := by
  have hden := den_pos f m e
  obtain ⟨hfloor, hceil⟩ := gridFloor_spec hden t
  rw [value_of] at hfloor hceil
  have hunit := two_zpow_pos e
  obtain ⟨step, hstep⟩ : ∃ step : ℚ, step = 10 ^ t := ⟨_, rfl⟩
  rw [ten_zpow_add] at ht
  rw [← hstep] at hfloor hceil ht
  -- Half a step is less than half a unit, and at a power of two less than a quarter.
  have hhalf : step < 2 ^ e := by
    have hlt : (m : ℚ) < 10 ^ 16 := by exact_mod_cast lt_trans h.lt hf
    have := mul_lt_mul_of_pos_right hlt hunit
    norm_num at ht this
    linarith
  have hquarter : m = twoTo f.fractionBits → step < 2 ^ e / 2 := by
    rintro rfl
    have hlt : (2 * twoTo f.fractionBits : ℚ) < 10 ^ 16 := by
      rw [twoTo_succ] at hf
      exact_mod_cast hf
    have := mul_lt_mul_of_pos_right hlt hunit
    norm_num at ht this
    linarith
  refine isSome_onGrid? hden ?_
  rw [← hstep]
  push_cast
  by_cases hnear : (m * 2 ^ e : ℚ) - (of f m e).gridFloor t * step ≤ step / 2
  · refine .inl (within_of_near hm ?_ (fun hpower => ?_) ?_)
    · linarith
    · have := hquarter hpower
      linarith
    · linarith
  · refine .inr (within_of_near hm ?_ (fun hpower => ?_) ?_) <;> linarith

/-- **The shortest decimal is read as the number**, and has at most eighteen digits. -/
theorem shortest_spec (h : f.Has m e) (hm : 0 < m) (hf : twoTo (f.fractionBits + 1) < 10 ^ 16) :
    (of f m e).Within ((of f m e).shortest tie).value ∧
      0 < ((of f m e).shortest tie).digits ∧ ((of f m e).shortest tie).digits < 10 ^ 18 := by
  have hden := den_pos f m e
  obtain ⟨hleast, hgreatest⟩ := leadingExponent_spec hden (value_pos hm)
  rw [value_of] at hleast hgreatest
  have hfine : ((of f m e).onGrid? tie ((of f m e).leadingExponent - (16 : ℕ))).isSome = true :=
    isSome_onGrid?_of_fine h hm hf (by simpa using hleast)
  obtain ⟨j, hj, heq⟩ := search_eq (by decide : 16 < 17) hfine
  rw [← shortest] at heq
  obtain ⟨d, hd⟩ : ∃ d, d = (of f m e).shortest tie := ⟨_, rfl⟩
  rw [← hd] at heq ⊢
  obtain ⟨-, hwithin, hdigits⟩ := onGrid?_spec hden heq
  refine ⟨hwithin, ?_, ?_⟩
  · have hpos := hwithin.pos hm
    rw [Decimal.value] at hpos
    have := pos_of_mul_pos_left hpos (ten_zpow_pos _).le
    exact_mod_cast this
  · -- The point below the number has at most seventeen digits.
    obtain ⟨hfloor, -⟩ := gridFloor_spec hden ((of f m e).leadingExponent - j)
    rw [value_of] at hfloor
    have hlt : ((of f m e).gridFloor ((of f m e).leadingExponent - j) : ℚ) < 10 ^ (j + 1 : ℤ) := by
      refine lt_of_mul_lt_mul_right ?_ (ten_zpow_pos ((of f m e).leadingExponent - j)).le
      rw [← ten_zpow_add]
      refine lt_of_le_of_lt hfloor (lt_of_lt_of_eq hgreatest ?_)
      congr 1
      omega
    have hlt' : (of f m e).gridFloor ((of f m e).leadingExponent - j) < 10 ^ (j + 1) := by
      exact_mod_cast hlt
    have hle : 10 ^ (j + 1) ≤ 10 ^ 17 := Nat.pow_le_pow_right (by decide) (by omega)
    omega

end OfNumber

end Rounding

end KeyedSeries

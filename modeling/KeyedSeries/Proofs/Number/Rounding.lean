import Mathlib.Algebra.Order.Field.Power
import Mathlib.Data.Rat.Cast.Order
import Mathlib.Tactic.FieldSimp
import Mathlib.Tactic.Linarith
import Mathlib.Tactic.Positivity
import Mathlib.Tactic.Ring
import KeyedSeries.Number.Shortest
import KeyedSeries.Proofs.Number.Pattern

/-!
# Which number is nearest to a fraction

The fractions that are nearest to a number of a format are the ones in the interval
around it (`KeyedSeries.Rounding.Within`). It is half a unit of the last place wide to
both sides, but just below a power of two, where the numbers lie closer, only half as
wide. **Whatever lies in the interval is rounded to the number**
(`KeyedSeries.BinaryFormat.nearest_of_within`).
-/

namespace KeyedSeries

/-! ### Powers of two -/

/-- A power with an integer exponent as a fraction of two powers, one of which is
one. -/
theorem zpow_eq_div (b : ℚ) (hb : b ≠ 0) (e : Int) : b ^ e = b ^ e.toNat / b ^ (-e).toNat := by
  rw [eq_div_iff (pow_ne_zero _ hb), ← zpow_natCast b e.toNat, ← zpow_natCast b (-e).toNat,
    ← zpow_add₀ hb]
  congr 1
  omega

theorem two_zpow_pos (e : Int) : (0 : ℚ) < 2 ^ e := zpow_pos (by norm_num) e

theorem two_zpow_add (a b : Int) : (2 : ℚ) ^ (a + b) = 2 ^ a * 2 ^ b := zpow_add₀ (by norm_num) a b

/-- A fraction scaled by a power of two. -/
theorem scaled_div {num den : Nat} (q : Int) :
    ((num * twoTo (-q).toNat : ℕ) : ℚ) / (den * twoTo q.toNat : ℕ) = (num / den : ℚ) / 2 ^ q := by
  rw [zpow_eq_div 2 (by norm_num) q]
  push_cast [twoTo_eq]
  rw [div_div_eq_mul_div, div_mul_eq_mul_div, div_div]

/-! ### The leading bit -/

section Fraction

variable {num den : Nat}

/-- The leading bit of a positive fraction is found. -/
theorem floorLog2_spec (hnum : 0 < num) (hden : 0 < den) :
    (2 : ℚ) ^ floorLog2 num den ≤ num / den ∧ (num / den : ℚ) < 2 ^ (floorLog2 num den + 1) := by
  have hden' : (0 : ℚ) < den := by exact_mod_cast hden
  have hlow : ∀ {n : Nat}, 0 < n → (2 : ℚ) ^ (n.log2 : ℤ) ≤ n := fun hn => by
    rw [zpow_natCast]
    exact_mod_cast Nat.log2_self_le (Nat.pos_iff_ne_zero.mp hn)
  have hhigh : ∀ n : Nat, (n : ℚ) < 2 ^ ((n.log2 : ℤ) + 1) := fun n => by
    have h : n < 2 ^ (n.log2 + 1) := Nat.lt_log2_self
    exact_mod_cast h
  obtain ⟨e, he⟩ : ∃ e : Int, e = num.log2 - den.log2 := ⟨_, rfl⟩
  -- The quotient of the leading bits is right or too large by one.
  have habove : (num / den : ℚ) < 2 ^ (e + 1) := by
    rw [div_lt_iff₀ hden']
    calc (num : ℚ) < 2 ^ ((num.log2 : ℤ) + 1) := hhigh num
      _ = 2 ^ (e + 1) * 2 ^ (den.log2 : ℤ) := by rw [← two_zpow_add]; congr 1; omega
      _ ≤ 2 ^ (e + 1) * den := by
        exact mul_le_mul_of_nonneg_left (hlow hden) (two_zpow_pos _).le
  have hbelow : (2 : ℚ) ^ (e - 1) ≤ num / den := by
    rw [le_div_iff₀ hden']
    calc (2 : ℚ) ^ (e - 1) * den ≤ 2 ^ (e - 1) * 2 ^ ((den.log2 : ℤ) + 1) :=
          mul_le_mul_of_nonneg_left (hhigh den).le (two_zpow_pos _).le
      _ = 2 ^ (num.log2 : ℤ) := by rw [← two_zpow_add]; congr 1; omega
      _ ≤ num := hlow hnum
  have htest : den * twoTo e.toNat ≤ num * twoTo (-e).toNat ↔ (2 : ℚ) ^ e ≤ num / den := by
    rw [zpow_eq_div 2 (by norm_num) e, div_le_div_iff₀ (by positivity) hden', mul_comm (2 ^ _)]
    exact_mod_cast Iff.rfl
  rw [floorLog2, ← he]
  split
  · next h => exact ⟨htest.mp h, habove⟩
  · next h =>
    rw [sub_add_cancel]
    exact ⟨hbelow, lt_of_not_ge (mt htest.mpr h)⟩

theorem floorLog2_eq (hnum : 0 < num) (hden : 0 < den) {e : Int} (hlow : (2 : ℚ) ^ e ≤ num / den)
    (hhigh : (num / den : ℚ) < 2 ^ (e + 1)) : floorLog2 num den = e := by
  obtain ⟨hlow', hhigh'⟩ := floorLog2_spec hnum hden
  have hlt : e < floorLog2 num den + 1 :=
    (zpow_lt_zpow_iff_right₀ (by norm_num)).mp (lt_of_le_of_lt hlow hhigh')
  have hlt' : floorLog2 num den < e + 1 :=
    (zpow_lt_zpow_iff_right₀ (by norm_num)).mp (lt_of_le_of_lt hlow' hhigh)
  omega

/-! ### Integers -/

/-- Of two numbers the larger one is not near to a smaller integer, if there are ties
only with even ones. -/
theorem le_of_near {v w : ℚ} {k k' : Nat} (hle : v ≤ w) (hlow : (k - 1 / 2 : ℚ) ≤ v)
    (heven : v = k - 1 / 2 → k % 2 = 0) (hhigh : w ≤ k' + 1 / 2)
    (heven' : w = k' + 1 / 2 → k' % 2 = 0) : k ≤ k' := by
  by_contra hlt
  have hnext : (k' + 1 : ℚ) ≤ k := by exact_mod_cast Nat.lt_of_not_le hlt
  -- Both would be the same tie, between two neighbours that are both even.
  have htie : v = k - 1 / 2 := by linarith
  have htie' : w = k' + 1 / 2 := by linarith
  have heq : k = k' + 1 := by
    have : (k : ℚ) = k' + 1 := by linarith
    exact_mod_cast this
  have := heven htie
  have := heven' htie'
  omega

/-- The nearest integer is half a step away at most, and then it is even. -/
theorem roundHalfEven_spec (hden : 0 < den) :
    (roundHalfEven num den - 1 / 2 : ℚ) ≤ num / den ∧
      (num / den : ℚ) ≤ roundHalfEven num den + 1 / 2 ∧
        ((num / den : ℚ) = roundHalfEven num den - 1 / 2 ∨
          (num / den : ℚ) = roundHalfEven num den + 1 / 2 → roundHalfEven num den % 2 = 0) := by
  have hden' : (0 : ℚ) < den := by exact_mod_cast hden
  obtain ⟨q, hq⟩ : ∃ q, q = num / den := ⟨_, rfl⟩
  obtain ⟨r, hr⟩ : ∃ r, r = num % den := ⟨_, rfl⟩
  have hlt : (r : ℚ) < den := by exact_mod_cast hr ▸ Nat.mod_lt num hden
  have hzero : (0 : ℚ) ≤ r := Nat.cast_nonneg r
  have hvalue : (num / den : ℚ) = q + r / den := by
    have hdiv := Nat.div_add_mod num den
    rw [← hq, ← hr] at hdiv
    rw [← hdiv]
    push_cast
    field_simp
  have hpart : 0 ≤ (r / den : ℚ) := by positivity
  have hwhole : (r / den : ℚ) < 1 := (div_lt_one hden').mpr hlt
  rw [hvalue, roundHalfEven, ← hq, ← hr]
  split
  · next hbelow =>
    have hhalf : (r / den : ℚ) < 1 / 2 := by
      rw [div_lt_div_iff₀ hden' two_pos]
      have : (2 * r : ℚ) < den := by exact_mod_cast hbelow
      linarith
    exact ⟨by linarith, by linarith, by rintro (h | h) <;> linarith⟩
  · split
    · next habove =>
      have hhalf : 1 / 2 < (r / den : ℚ) := by
        rw [div_lt_div_iff₀ two_pos hden']
        have : (den : ℚ) < 2 * r := by exact_mod_cast habove
        linarith
      push_cast
      exact ⟨by linarith, by linarith, by rintro (h | h) <;> linarith⟩
    · next hbelow habove =>
      have hhalf : (r / den : ℚ) = 1 / 2 := by
        rw [div_eq_div_iff hden'.ne' two_pos.ne']
        have h : 2 * r = den := by omega
        have : (2 * r : ℚ) = den := by exact_mod_cast h
        linarith
      rw [hhalf]
      rcases Nat.mod_two_eq_zero_or_one q with hmod | hmod
      · rw [hmod, Nat.add_zero]
        exact ⟨by linarith, le_refl _, fun _ => hmod⟩
      · rw [hmod]
        push_cast
        exact ⟨by linarith, by linarith, fun _ => by omega⟩

/-- An integer that a fraction is near to, with a tie only if it is even, is the
nearest one. -/
theorem roundHalfEven_eq (hden : 0 < den) {k : Nat} (hlow : (k - 1 / 2 : ℚ) ≤ num / den)
    (hhigh : (num / den : ℚ) ≤ k + 1 / 2)
    (htie : (num / den : ℚ) = k - 1 / 2 ∨ (num / den : ℚ) = k + 1 / 2 → k % 2 = 0) :
    roundHalfEven num den = k := by
  obtain ⟨hlow', hhigh', htie'⟩ := @roundHalfEven_spec num den hden
  exact le_antisymm
    (le_of_near (le_refl _) hlow' (fun h => htie' (.inl h)) hhigh fun h => htie (.inr h))
    (le_of_near (le_refl _) hlow (fun h => htie (.inl h)) hhigh' fun h => htie' (.inr h))

/-- The same in units of the last place. -/
theorem roundHalfEven_scaled (hden : 0 < den) {k : Nat} {q : Int} {w : ℚ}
    (hw : (num / den : ℚ) / 2 ^ q = w) (hlow : (k - 1 / 2 : ℚ) ≤ w) (hhigh : w ≤ k + 1 / 2)
    (htie : w = k - 1 / 2 ∨ w = k + 1 / 2 → k % 2 = 0) :
    roundHalfEven (num * twoTo (-q).toNat) (den * twoTo q.toNat) = k := by
  rw [← hw, ← scaled_div] at hlow hhigh htie
  exact roundHalfEven_eq (Nat.mul_pos hden (twoTo_pos _)) hlow hhigh htie

end Fraction

/-! ### Intervals -/

namespace Rounding

/-- Whether a number lies in the interval. -/
def Within (r : Rounding) (v : ℚ) : Prop :=
  (r.low / r.den : ℚ) ≤ v ∧ v ≤ r.high / r.den ∧
    ((r.low / r.den : ℚ) = v ∨ v = r.high / r.den → r.closed = true)

theorem contains_iff {r : Rounding} (hr : 0 < r.den) {num d : Nat} (hd : 0 < d) :
    r.contains num d = true ↔ r.Within (num / d) := by
  have hr' : (0 : ℚ) < r.den := by exact_mod_cast hr
  have hd' : (0 : ℚ) < d := by exact_mod_cast hd
  have hle : ∀ {a b c e : Nat}, 0 < b → 0 < e → ((a / b : ℚ) ≤ c / e ↔ a * e ≤ c * b) := by
    intro a b c e hb he
    rw [div_le_div_iff₀ (by exact_mod_cast hb) (by exact_mod_cast he)]
    exact_mod_cast Iff.rfl
  have heq : ∀ {a b c e : Nat}, 0 < b → 0 < e → ((a / b : ℚ) = c / e ↔ a * e = c * b) := by
    intro a b c e hb he
    have hb' : (b : ℚ) ≠ 0 := by exact_mod_cast hb.ne'
    have he' : (e : ℚ) ≠ 0 := by exact_mod_cast he.ne'
    rw [div_eq_div_iff hb' he']
    exact_mod_cast Iff.rfl
  rw [contains, Within, hle hr hd, hle hd hr, heq hr hd, heq hd hr]
  cases r.closed with
  | true => simp
  | false =>
    simp only [Bool.false_eq_true, if_false, Bool.and_eq_true, decide_eq_true_eq, imp_false, not_or]
    omega

theorem den_pos (f : BinaryFormat) (m : Nat) (e : Int) : 0 < (of f m e).den :=
  twoTo_pos _

variable {f : BinaryFormat} {m : Nat} {e : Int} {v : ℚ}

/-- A unit is four of the quarters in which the interval is given. -/
theorem unit_eq (e : Int) : (2 : ℚ) ^ e = 4 * (2 ^ (e - 2).toNat / 2 ^ (2 - e).toNat) := by
  have h := zpow_eq_div 2 (by norm_num) (e - 2)
  have hsplit := two_zpow_add 2 (e - 2)
  rw [neg_sub] at h
  rw [add_sub_cancel, h] at hsplit
  rw [hsplit]
  norm_num

/-- The number lies in its interval. -/
theorem value_of : ((of f m e).value / (of f m e).den : ℚ) = m * 2 ^ e := by
  simp only [of, twoTo_eq]
  rw [unit_eq]
  push_cast
  ring

/-- The interval reaches half a unit upwards. -/
theorem high_of : ((of f m e).high / (of f m e).den : ℚ) = (m + 1 / 2) * 2 ^ e := by
  simp only [of, twoTo_eq]
  rw [unit_eq]
  push_cast
  ring

/-- It reaches half a unit downwards, and only a quarter below a power of two. -/
theorem low_of (hm : 0 < m) : ((of f m e).low / (of f m e).den : ℚ) =
    (m - if m = twoTo f.fractionBits ∧ f.leastExponent < e then 1 / 4 else 1 / 2) * 2 ^ e := by
  have hquarters : ∀ below : Nat, below ≤ 4 * m →
      (((4 * m - below) * twoTo (e - 2).toNat : ℕ) / (twoTo (2 - e).toNat : ℕ) : ℚ) =
        (m - below / 4) * 2 ^ e := by
    intro below hle
    rw [unit_eq, Nat.cast_mul, Nat.cast_sub hle]
    push_cast [twoTo_eq]
    ring
  by_cases h : m = twoTo f.fractionBits ∧ f.leastExponent < e
  · rw [if_pos h]
    have hlow := hquarters 1 (by omega)
    simp only [of, if_pos h]
    rw [hlow]
    norm_num
  · rw [if_neg h]
    have hlow := hquarters 2 (by omega)
    simp only [of, if_neg h]
    rw [hlow]
    norm_num

/-- What is nearer than a quarter of a unit is inside; above a number that is no power
of two, half a unit will do. -/
theorem within_of_near (hm : 0 < m) {v : ℚ} (hlow : (m - 1 / 2) * 2 ^ e < v)
    (hpower : m = twoTo f.fractionBits → (m - 1 / 4) * 2 ^ e < v)
    (hhigh : v < (m + 1 / 2) * 2 ^ e) : (of f m e).Within v := by
  rw [Within, low_of hm, high_of]
  have hlow' : (m - if m = twoTo f.fractionBits ∧ f.leastExponent < e then 1 / 4 else 1 / 2 : ℚ) *
      2 ^ e < v := by
    split
    · next h => exact hpower h.1
    · exact hlow
  exact ⟨hlow'.le, hhigh.le, fun hends => (hends.elim hlow'.ne hhigh.ne).elim⟩

/-- A number lies in its own interval. -/
theorem within_self (hm : 0 < m) : (of f m e).Within (m * 2 ^ e) := by
  have hunit := two_zpow_pos e
  refine within_of_near hm ?_ (fun _ => ?_) ?_ <;> nlinarith

/-- What is inside is positive. -/
theorem Within.pos (hm : 0 < m) {v : ℚ} (h : (of f m e).Within v) : 0 < v := by
  have hlow := h.1
  rw [low_of hm] at hlow
  have hm' : (1 : ℚ) ≤ m := by exact_mod_cast hm
  refine lt_of_lt_of_le (mul_pos ?_ (two_zpow_pos e)) hlow
  split <;> linarith

end Rounding

/-! ### Rounding to a number -/

namespace BinaryFormat

variable {f : BinaryFormat} {num den m : Nat} {e : Int}

/-- The nearest pattern, when the place of the last bit is known, and what the
fraction is rounded to there. -/
theorem nearest_eq (hnum : 0 < num) {q : Int} {k : Nat}
    (hq : max (floorLog2 num den - f.fractionBits) f.leastExponent = q)
    (hk : roundHalfEven (num * twoTo (-q).toNat) (den * twoTo q.toNat) = k) :
    f.nearest num den =
      min ((q - f.leastExponent).toNat * twoTo f.fractionBits + k) f.infinityPattern := by
  rw [nearest, if_neg (Nat.pos_iff_ne_zero.mp hnum)]
  simp only [hq, hk]

/-- Powers of two on the scale of a unit. -/
theorem two_pow_mul_unit (k : Nat) (e : Int) : (2 : ℚ) ^ k * 2 ^ e = 2 ^ (k + e : ℤ) := by
  rw [two_zpow_add, zpow_natCast]

/-- Where the last bit counts a unit of the number, a fraction that is near to the
number is rounded to it. -/
theorem nearest_of_units (h : f.Has m e) (hnum : 0 < num) (hden : 0 < den) {w : ℚ}
    (hw : (num / den : ℚ) = w * 2 ^ e) (hunits : e = f.leastExponent ∨ (2 : ℚ) ^ f.fractionBits ≤ w)
    (hlow : (m - 1 / 2 : ℚ) ≤ w) (hhigh : w ≤ m + 1 / 2)
    (heven : w = m - 1 / 2 ∨ w = m + 1 / 2 → m % 2 = 0) : f.nearest num den = f.pattern m e := by
  have hunit := two_zpow_pos e
  have hfits : (m : ℚ) + 1 ≤ 2 ^ (f.fractionBits + 1) := by exact_mod_cast h.lt
  have htop : (num / den : ℚ) < 2 ^ (f.fractionBits + e + 1 : ℤ) := by
    have hshift := two_pow_mul_unit (f.fractionBits + 1) e
    push_cast at hshift
    rw [hw, add_right_comm, ← hshift]
    exact mul_lt_mul_of_pos_right (by linarith) hunit
  have hq : max (floorLog2 num den - f.fractionBits) f.leastExponent = e := by
    rcases hunits with hleast | hnormal
    · have hlt : floorLog2 num den < f.fractionBits + e + 1 :=
        (zpow_lt_zpow_iff_right₀ (by norm_num)).mp
          (lt_of_le_of_lt (floorLog2_spec hnum hden).1 htop)
      omega
    · have hfloor : floorLog2 num den = f.fractionBits + e := by
        refine floorLog2_eq hnum hden ?_ htop
        rw [hw, ← two_pow_mul_unit]
        exact mul_le_mul_of_nonneg_right hnormal hunit.le
      have := h.least
      omega
  have hround : roundHalfEven (num * twoTo (-e).toNat) (den * twoTo e.toNat) = m :=
    roundHalfEven_scaled hden (by rw [hw, mul_div_cancel_right₀ _ hunit.ne']) hlow hhigh heven
  rw [nearest_eq hnum hq hround]
  exact min_eq_left h.finite.le

/-- Below a power of two the last bit counts half a unit, and what is nearer than half
of that is rounded up to the power. -/
theorem nearest_below_power (h : f.Has (twoTo f.fractionBits) e) (hleast : f.leastExponent < e)
    (hnum : 0 < num) (hden : 0 < den) {w : ℚ} (hw : (num / den : ℚ) = w * 2 ^ e)
    (hlow : (2 ^ f.fractionBits - 1 / 4 : ℚ) ≤ w) (hhigh : w < 2 ^ f.fractionBits) :
    f.nearest num den = f.pattern (twoTo f.fractionBits) e := by
  have hunit := two_zpow_pos e
  have hpower : (1 : ℚ) ≤ 2 ^ f.fractionBits := one_le_pow₀ (by norm_num)
  have hhalf : (num / den : ℚ) / 2 ^ (e - 1) = 2 * w := by
    have hsplit := two_zpow_add (e - 1) 1
    rw [sub_add_cancel] at hsplit
    rw [hw, hsplit]
    field_simp
  have hfloor : floorLog2 num den = f.fractionBits + e - 1 := by
    refine floorLog2_eq hnum hden ?_ ?_
    · have hsplit := two_zpow_add (f.fractionBits + e - 1) 1
      rw [sub_add_cancel, ← two_pow_mul_unit, zpow_one] at hsplit
      rw [hw]
      nlinarith
    · rw [sub_add_cancel, ← two_pow_mul_unit, hw]
      exact mul_lt_mul_of_pos_right hhigh hunit
  have hround : roundHalfEven (num * twoTo (-(e - 1)).toNat) (den * twoTo (e - 1).toNat) =
      2 * twoTo f.fractionBits := by
    refine roundHalfEven_scaled hden hhalf ?_ ?_ fun _ => by omega
    · push_cast [twoTo_eq]
      linarith
    · push_cast [twoTo_eq]
      linarith
  have hpattern : (e - 1 - f.leastExponent).toNat * twoTo f.fractionBits +
      2 * twoTo f.fractionBits = f.pattern (twoTo f.fractionBits) e := by
    have hcount : (e - f.leastExponent).toNat = (e - 1 - f.leastExponent).toNat + 1 := by omega
    rw [pattern, hcount]
    ring
  rw [nearest_eq hnum (by omega) hround, hpattern]
  exact min_eq_left h.finite.le

/-- **A fraction in the interval of a number is rounded to the number.** -/
theorem nearest_of_within (h : f.Has m e) (hm : 0 < m) (hden : 0 < den)
    (hv : (Rounding.of f m e).Within (num / den)) : f.nearest num den = f.pattern m e := by
  have hnum : 0 < num := by
    have hpos := hv.pos hm
    by_contra hzero
    obtain rfl : num = 0 := by omega
    simp at hpos
  obtain ⟨hlow, hhigh, hclosed⟩ := hv
  rw [Rounding.low_of hm] at hlow hclosed
  rw [Rounding.high_of] at hhigh hclosed
  have hunit := two_zpow_pos e
  -- The fraction in units of the number.
  obtain ⟨w, hw⟩ : ∃ w : ℚ, (num / den : ℚ) = w * 2 ^ e :=
    ⟨num / den / 2 ^ e, (div_mul_cancel₀ _ hunit.ne').symm⟩
  rw [hw] at hlow hhigh hclosed
  rw [mul_le_mul_iff_of_pos_right hunit] at hlow hhigh
  rw [mul_left_inj' hunit.ne', mul_left_inj' hunit.ne'] at hclosed
  by_cases hunits : e = f.leastExponent ∨ (2 : ℚ) ^ f.fractionBits ≤ w
  · refine nearest_of_units h hnum hden hw hunits ?_ hhigh fun htie => ?_
    · split at hlow <;> linarith
    · -- A tie is an end of the interval, and only an even number has its ends.
      have hends :
          (m - if m = twoTo f.fractionBits ∧ f.leastExponent < e then 1 / 4 else 1 / 2 : ℚ) =
          w ∨ w = m + 1 / 2 := by
        refine htie.imp_left fun htie => ?_
        split at hlow
        · linarith
        · next hno => rw [if_neg hno, htie]
      simpa [Rounding.of] using hclosed hends
  · -- Only a power of two has fractions in its interval that lie closer to each other.
    rw [not_or, not_le] at hunits
    obtain ⟨hleast, hbelow⟩ := hunits
    have hnormal := h.normal.resolve_left hleast
    obtain rfl : m = twoTo f.fractionBits := by
      refine le_antisymm ?_ hnormal
      by_contra hgt
      have hgt' : (2 : ℚ) ^ f.fractionBits + 1 ≤ m := by exact_mod_cast Nat.lt_of_not_le hgt
      split at hlow <;> linarith
    have hlt : f.leastExponent < e := lt_of_le_of_ne h.least (Ne.symm hleast)
    rw [if_pos ⟨rfl, hlt⟩] at hlow
    push_cast [twoTo_eq] at hlow
    exact nearest_below_power h hlt hnum hden hw hlow hbelow

end BinaryFormat

end KeyedSeries

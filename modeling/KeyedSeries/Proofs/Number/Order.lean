import Mathlib.Order.WithBot
import Mathlib.Order.Compare
import KeyedSeries.Proofs.Number.Arithmetic

/-!
# The order of floating-point numbers

What a bit pattern means has a place among the rational numbers and two infinities
(`KeyedSeries.Datum.value?`), and **data are compared as their values**
(`KeyedSeries.Datum.compare?_eq_cmp`).

Rounding a signed fraction (`KeyedSeries.BinaryFormat.Rounds`) never turns the order
around (`KeyedSeries.BinaryFormat.Rounds.mono`) and leaves numbers of the format alone
(`KeyedSeries.BinaryFormat.Rounds.of_has`). So no number of the format gets between a
fraction and what it is rounded to.
-/

namespace KeyedSeries

/-! ### Values of data -/

/-- The rational numbers, with an infinity at either end. -/
abbrev ExtendedRat := WithBot (WithTop ℚ)

/-- A rational number among those with infinities. -/
def ExtendedRat.ofRat (q : ℚ) : ExtendedRat := ((q : WithTop ℚ) : WithBot (WithTop ℚ))

theorem ExtendedRat.strictMono_ofRat : StrictMono ofRat := fun _ _ h =>
  WithBot.coe_lt_coe.mpr (WithTop.coe_lt_coe.mpr h)

theorem ExtendedRat.bot_lt_ofRat (q : ℚ) : ⊥ < ofRat q := WithBot.bot_lt_coe _

theorem ExtendedRat.ofRat_lt_top (q : ℚ) : ofRat q < ⊤ :=
  WithBot.coe_lt_coe.mpr (WithTop.coe_lt_top q)

theorem ExtendedRat.cmp_ofRat (p q : ℚ) : cmp (ofRat p) (ofRat q) = cmp p q :=
  strictMono_ofRat.cmp_map_eq p q

theorem ExtendedRat.ofRat_inj {p q : ℚ} : ofRat p = ofRat q ↔ p = q :=
  strictMono_ofRat.injective.eq_iff

namespace Datum

/-- The number that a datum stands for, if it is one. -/
def value? : Datum → Option ExtendedRat
  | nan => none
  | infinity true => some ⊥
  | infinity false => some ⊤
  | finite s m e => some (.ofRat (signed s m * 2 ^ e))

/-- Integers over a common power of two are compared as the numbers they make up. -/
theorem compareScaled_eq_cmp (a p b q : Int) :
    compareScaled a p b q = cmp (a * 2 ^ p : ℚ) (b * 2 ^ q) := by
  have hscaled : ∀ (c s : Int), min p q ≤ s →
      ((c * twoTo (s - min p q).toNat : Int) : ℚ) * 2 ^ min p q = c * 2 ^ s := by
    intro c s hs
    have hsum := two_zpow_add ((s - min p q).toNat : Int) (min p q)
    rw [Int.toNat_of_nonneg (by omega), sub_add_cancel] at hsum
    rw [hsum, twoTo_eq]
    push_cast
    rw [mul_assoc, ← zpow_natCast, Int.toNat_of_nonneg (by omega)]
  have hmono : StrictMono fun c : Int => (c : ℚ) * 2 ^ min p q := fun c d h =>
    mul_lt_mul_of_pos_right (Int.cast_lt.mpr h) (two_zpow_pos _)
  rw [← hscaled a p (min_le_left p q), ← hscaled b q (min_le_right p q)]
  exact (cmp_eq_compare _ _).symm.trans (hmono.cmp_map_eq _ _).symm

/-- **Data are compared as the numbers they stand for.** -/
theorem compare?_eq_cmp {x y : Datum} {v w : ExtendedRat} (hx : x.value? = some v)
    (hy : y.value? = some w) : x.compare? y = some (cmp v w) := by
  cases x with
  | nan => cases hx
  | infinity s =>
    cases y with
    | nan => cases hy
    | infinity t =>
      cases s <;> cases t <;> cases hx <;> cases hy
      · exact congrArg some (cmp_self_eq_eq _).symm
      · exact congrArg some ((cmp_eq_gt_iff _ _).mpr bot_lt_top).symm
      · exact congrArg some ((cmp_eq_lt_iff _ _).mpr bot_lt_top).symm
      · exact congrArg some (cmp_self_eq_eq _).symm
    | finite t b q =>
      cases hy
      cases s <;> cases hx
      · exact congrArg some ((cmp_eq_gt_iff _ _).mpr (ExtendedRat.ofRat_lt_top _)).symm
      · exact congrArg some ((cmp_eq_lt_iff _ _).mpr (ExtendedRat.bot_lt_ofRat _)).symm
  | finite s a p =>
    cases hx
    cases y with
    | nan => cases hy
    | infinity t =>
      cases t <;> cases hy
      · exact congrArg some ((cmp_eq_lt_iff _ _).mpr (ExtendedRat.ofRat_lt_top _)).symm
      · exact congrArg some ((cmp_eq_gt_iff _ _).mpr (ExtendedRat.bot_lt_ofRat _)).symm
    | finite t b q =>
      cases hy
      rw [compare?, compareScaled_eq_cmp, ExtendedRat.cmp_ofRat]

end Datum

/-! ### Rounding with a sign -/

namespace BinaryFormat

variable {f : BinaryFormat} {q q' v v' : ℚ} {m : Nat} {e : Int}

/-- The number of the format that a signed fraction is rounded to, where it is finite. -/
def Rounds (f : BinaryFormat) (q v : ℚ) : Prop :=
  ∃ (negative : Bool) (num den m : Nat) (e : Int), 0 < den ∧
    q = Datum.signed negative num / den ∧ f.Has m e ∧ f.nearest num den = f.pattern m e ∧
      v = Datum.signed negative m * 2 ^ e

theorem signed_true (m : Nat) : ((Datum.signed true m : Int) : ℚ) = -m := by
  simp [Datum.signed]

theorem signed_false (m : Nat) : ((Datum.signed false m : Int) : ℚ) = m := by
  simp [Datum.signed]

namespace Rounds

/-- **Rounding does not turn the order around.** -/
theorem mono (h : f.Rounds q v) (h' : f.Rounds q' v') (hle : q ≤ q') : v ≤ v' := by
  obtain ⟨s, num, den, m, e, hden, rfl, hhas, hnearest, rfl⟩ := h
  obtain ⟨s', num', den', m', e', hden', rfl, hhas', hnearest', rfl⟩ := h'
  have hunit := two_zpow_pos e
  have hunit' := two_zpow_pos e'
  have hq : (0 : ℚ) ≤ num / den := by positivity
  have hq' : (0 : ℚ) ≤ num' / den' := by positivity
  cases s with
  | false =>
    cases s' with
    | false =>
      rw [signed_false, signed_false] at hle ⊢
      refine value_mono hhas hhas' ?_
      rw [← hnearest, ← hnearest']
      exact nearest_mono hden hden' hle
    | true =>
      -- A number that is not negative is below one that is not positive: both are zero.
      rw [signed_false, signed_true, neg_div] at hle
      obtain rfl : num = 0 := by
        have hzero : (num / den : ℚ) = 0 := by linarith
        simpa [hden.ne'] using hzero
      obtain rfl : num' = 0 := by
        have hzero : (num' / den' : ℚ) = 0 := by linarith
        simpa [hden'.ne'] using hzero
      have hm : m = 0 := by
        rw [nearest, if_pos rfl, pattern] at hnearest
        omega
      have hm' : m' = 0 := by
        rw [nearest, if_pos rfl, pattern] at hnearest'
        omega
      simp [hm, hm', Datum.signed]
  | true =>
    cases s' with
    | false =>
      rw [signed_true, signed_false]
      have hm : (0 : ℚ) ≤ m * 2 ^ e := by positivity
      have hm' : (0 : ℚ) ≤ m' * 2 ^ e' := by positivity
      linarith
    | true =>
      rw [signed_true, signed_true, neg_div, neg_div, neg_le_neg_iff] at hle
      rw [signed_true, signed_true, neg_mul, neg_mul, neg_le_neg_iff]
      refine value_mono hhas' hhas ?_
      rw [← hnearest, ← hnearest']
      exact nearest_mono hden' hden hle

/-- **Numbers of the format are not rounded.** -/
theorem of_has (negative : Bool) (h : f.Has m e) :
    f.Rounds (Datum.signed negative m * 2 ^ e) (Datum.signed negative m * 2 ^ e) := by
  refine ⟨negative, m * twoTo e.toNat, 1 * twoTo (-e).toNat, m, e,
    Nat.mul_pos Nat.one_pos (twoTo_pos _), ?_, h, ?_, rfl⟩
  · have hscaled := BinaryFloat.scaled_fraction m 1 e
    rw [Nat.cast_one, div_one] at hscaled
    cases negative with
    | false => rw [signed_false, signed_false, hscaled]
    | true => rw [signed_true, signed_true, neg_div, hscaled, neg_mul]
  · rcases Nat.eq_zero_or_pos m with rfl | hm
    · have hleast := h.normal.resolve_right (Nat.not_le.mpr (twoTo_pos _))
      rw [Nat.zero_mul, nearest, if_pos rfl, pattern, hleast, sub_self, Int.toNat_zero,
        Nat.zero_mul]
    · refine nearest_of_eq h hm (Nat.mul_pos Nat.one_pos (twoTo_pos _)) ?_
      rw [BinaryFloat.scaled_fraction, Nat.cast_one, div_one]

end Rounds

end BinaryFormat

end KeyedSeries

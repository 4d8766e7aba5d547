import Mathlib.Tactic.Ring
import KeyedSeries.Number.Binary

/-!
# Bit patterns and numbers

The finite numbers of a format are those of the form `m * 2 ^ e` with few bits and no
small exponent (`KeyedSeries.BinaryFormat.Has`). **Their patterns say `m` and `e`**:
what a pattern means is read off it (`KeyedSeries.BinaryFloat.datum_ofPattern`), and a
finite number is the one of the pattern of what it means
(`KeyedSeries.BinaryFloat.eq_ofPattern_of_datum`).
-/

namespace KeyedSeries

theorem twoTo_eq (n : Nat) : twoTo n = 2 ^ n := rfl

theorem tenTo_eq (n : Nat) : tenTo n = 10 ^ n := rfl

theorem tenTo_le {a b : Nat} (h : a ≤ b) : tenTo a ≤ tenTo b := Nat.pow_le_pow_right (by decide) h

theorem twoTo_pos (n : Nat) : 0 < twoTo n := Nat.two_pow_pos n

theorem twoTo_add (a b : Nat) : twoTo (a + b) = twoTo a * twoTo b := Nat.pow_add 2 a b

theorem twoTo_succ (n : Nat) : twoTo (n + 1) = 2 * twoTo n := pow_succ' 2 n

namespace BinaryFormat

/-- The pattern, without sign, of `m * 2 ^ e`. -/
def pattern (f : BinaryFormat) (m : Nat) (e : Int) : Nat :=
  (e - f.leastExponent).toNat * twoTo f.fractionBits + m

/-- The format has the number `m * 2 ^ e`, and its pattern says just this `m` and
this `e`. -/
structure Has (f : BinaryFormat) (m : Nat) (e : Int) : Prop where
  /-- The significand is not too long. -/
  lt : m < twoTo (f.fractionBits + 1)
  /-- The exponent is not too small. -/
  least : f.leastExponent ≤ e
  /-- The significand is not too short, unless the exponent is the smallest. -/
  normal : e = f.leastExponent ∨ twoTo f.fractionBits ≤ m
  /-- The number is finite. -/
  finite : f.pattern m e < f.infinityPattern

theorem Has.field_lt {f : BinaryFormat} {m : Nat} {e : Int} (h : f.Has m e) :
    f.pattern m e / twoTo f.fractionBits < f.reservedExponent :=
  Nat.div_lt_of_lt_mul (Nat.mul_comm _ _ ▸ h.finite)

theorem reservedExponent_lt (f : BinaryFormat) : f.reservedExponent < twoTo f.exponentBits :=
  Nat.sub_lt (twoTo_pos _) Nat.one_pos

end BinaryFormat

namespace BinaryFloat

variable {f : BinaryFormat} {m : Nat} {e : Int} {negative : Bool}

/-! ### The fields of a pattern -/

section Fields

variable {p : Nat}

/-- The bits of a pattern with a sign. -/
theorem toNat_ofPattern (h : p < twoTo (f.fractionBits + f.exponentBits)) :
    (ofPattern negative p : BinaryFloat f).bits.toNat =
      p + if negative then twoTo (f.fractionBits + f.exponentBits) else 0 := by
  have hwidth : 2 ^ f.width = 2 * twoTo (f.fractionBits + f.exponentBits) := by
    rw [twoTo_eq, BinaryFormat.width, ← pow_succ']
    congr 1
    omega
  rw [ofPattern, BitVec.toNat_ofNat, hwidth]
  refine Nat.mod_eq_of_lt ?_
  split <;> omega

theorem isNegative_ofPattern (h : p < twoTo (f.fractionBits + f.exponentBits)) :
    (ofPattern negative p : BinaryFloat f).isNegative = negative := by
  rw [isNegative, toNat_ofPattern h]
  cases negative with
  | true => simp [Nat.add_div_right _ (twoTo_pos _), Nat.div_eq_of_lt h]
  | false => simp [Nat.div_eq_of_lt h]

theorem fraction_ofPattern (h : p < twoTo (f.fractionBits + f.exponentBits)) :
    (ofPattern negative p : BinaryFloat f).fraction = p % twoTo f.fractionBits := by
  rw [fraction, toNat_ofPattern h]
  cases negative with
  | true => rw [if_pos rfl, twoTo_add, Nat.add_mul_mod_self_left]
  | false => rfl

theorem exponentField_ofPattern (h : p < twoTo (f.fractionBits + f.exponentBits)) :
    (ofPattern negative p : BinaryFloat f).exponentField = p / twoTo f.fractionBits := by
  have hfield : p / twoTo f.fractionBits < twoTo f.exponentBits := by
    refine Nat.div_lt_of_lt_mul ?_
    rwa [← twoTo_add]
  rw [exponentField, toNat_ofPattern h]
  cases negative with
  | true =>
    rw [if_pos rfl, twoTo_add, Nat.add_mul_div_left _ _ (twoTo_pos _), Nat.add_mod_right,
      Nat.mod_eq_of_lt hfield]
  | false => rw [if_neg Bool.false_ne_true, Nat.add_zero, Nat.mod_eq_of_lt hfield]

end Fields

/-! ### What a pattern means -/

theorem infinityPattern_lt (f : BinaryFormat) :
    f.infinityPattern < twoTo (f.fractionBits + f.exponentBits) := by
  rw [BinaryFormat.infinityPattern, twoTo_add, Nat.mul_comm]
  exact Nat.mul_lt_mul_of_pos_left f.reservedExponent_lt (twoTo_pos _)

/-- **What the pattern of a number means** is the number. -/
theorem datum_ofPattern (h : f.Has m e) :
    (ofPattern negative (f.pattern m e) : BinaryFloat f).datum = .finite negative m e := by
  have hlt := lt_trans h.finite (infinityPattern_lt f)
  have hfield := h.field_lt
  rw [datum, exponentField_ofPattern hlt, fraction_ofPattern hlt, isNegative_ofPattern hlt,
    if_neg hfield.ne]
  rcases Nat.lt_or_ge m (twoTo f.fractionBits) with hsmall | hlarge
  · -- Without the hidden bit.
    obtain rfl := h.normal.resolve_right (Nat.not_le.mpr hsmall)
    have hpattern : f.pattern m f.leastExponent = m := by simp [BinaryFormat.pattern]
    rw [hpattern, if_pos (Nat.div_eq_of_lt hsmall), Nat.mod_eq_of_lt hsmall]
  · -- With the hidden bit, which counts as one in the exponent field.
    obtain ⟨r, rfl⟩ := Nat.exists_eq_add_of_le hlarge
    have hr : r < twoTo f.fractionBits := by
      have hlt := h.lt
      rw [twoTo_succ] at hlt
      omega
    have hpattern : f.pattern (twoTo f.fractionBits + r) e =
        r + twoTo f.fractionBits * ((e - f.leastExponent).toNat + 1) := by
      rw [BinaryFormat.pattern]
      ring
    have hleast := h.least
    rw [hpattern, Nat.add_mul_div_left _ _ (twoTo_pos _), Nat.add_mul_mod_self_left,
      Nat.div_eq_of_lt hr, Nat.mod_eq_of_lt hr, if_neg (by omega)]
    congr 1
    omega

/-- A number is its sign and its pattern without sign. -/
theorem eq_ofPattern (x : BinaryFloat f) :
    x = ofPattern x.isNegative (x.bits.toNat % twoTo (f.fractionBits + f.exponentBits)) := by
  obtain ⟨n, hn⟩ : ∃ n, n = x.bits.toNat := ⟨_, rfl⟩
  have hwidth : 2 ^ f.width = twoTo (f.fractionBits + f.exponentBits) * 2 := by
    rw [twoTo_eq, BinaryFormat.width, ← pow_succ]
    congr 1
    omega
  have hbits : n < 2 ^ f.width := hn ▸ x.bits.isLt
  have hlt : n / twoTo (f.fractionBits + f.exponentBits) < 2 :=
    Nat.div_lt_of_lt_mul (hwidth ▸ hbits)
  have hdiv := Nat.div_add_mod n (twoTo (f.fractionBits + f.exponentBits))
  have hsum : n % twoTo (f.fractionBits + f.exponentBits) +
      (if x.isNegative then twoTo (f.fractionBits + f.exponentBits) else 0) = n := by
    by_cases hone : n / twoTo (f.fractionBits + f.exponentBits) = 1
    · rw [isNegative, ← hn, hone, if_pos (beq_self_eq_true 1)]
      rw [hone] at hdiv
      omega
    · have hzero : n / twoTo (f.fractionBits + f.exponentBits) = 0 :=
        Nat.lt_one_iff.mp (lt_of_le_of_ne (Nat.le_of_lt_succ hlt) hone)
      rw [isNegative, ← hn, hzero, if_neg (by decide)]
      rw [hzero] at hdiv
      omega
  have hx : ofPattern x.isNegative (n % twoTo (f.fractionBits + f.exponentBits)) =
      (⟨BitVec.ofNat _ n⟩ : BinaryFloat f) := by
    rw [ofPattern, hsum]
  rw [← hn, hx, hn, BitVec.ofNat_toNat, BitVec.setWidth_eq]

/-- A pattern that is not reserved is the one of a number, which its fields say. -/
theorem exists_pattern {p : Nat} (hp : p / twoTo f.fractionBits < f.reservedExponent) :
    ∃ m e, f.Has m e ∧ f.pattern m e = p := by
  have hdiv := Nat.div_add_mod p (twoTo f.fractionBits)
  have hmod := Nat.mod_lt p (twoTo_pos f.fractionBits)
  have htwo := twoTo_succ f.fractionBits
  have hfinite : p < f.infinityPattern := by
    rw [BinaryFormat.infinityPattern]
    exact (Nat.div_lt_iff_lt_mul (twoTo_pos _)).mp hp
  rcases Nat.eq_zero_or_pos (p / twoTo f.fractionBits) with hzero | hpos
  · rw [hzero, Nat.mul_zero, Nat.zero_add] at hdiv
    have hpattern : f.pattern (p % twoTo f.fractionBits) f.leastExponent = p := by
      simp [BinaryFormat.pattern, hdiv]
    exact ⟨_, _, ⟨by omega, le_refl _, .inl rfl, hpattern.trans_lt hfinite⟩, hpattern⟩
  · have hcount : (f.leastExponent + (p / twoTo f.fractionBits - 1 : ℕ) -
        f.leastExponent).toNat = p / twoTo f.fractionBits - 1 := by omega
    have hpattern : f.pattern (twoTo f.fractionBits + p % twoTo f.fractionBits)
        (f.leastExponent + (p / twoTo f.fractionBits - 1 : ℕ)) = p := by
      rw [BinaryFormat.pattern, hcount, ← Nat.add_assoc, ← Nat.succ_mul, Nat.succ_eq_add_one,
        Nat.sub_add_cancel hpos, Nat.mul_comm]
      exact hdiv
    exact ⟨_, _, ⟨by omega, by omega, .inr (by omega), hpattern.trans_lt hfinite⟩, hpattern⟩

/-- **A finite number is the one of the pattern of what it means.** -/
theorem eq_ofPattern_of_datum {x : BinaryFloat f} (hx : x.datum = .finite negative m e) :
    f.Has m e ∧ x = ofPattern negative (f.pattern m e) := by
  obtain ⟨p, hp⟩ : ∃ p, p = x.bits.toNat % twoTo (f.fractionBits + f.exponentBits) := ⟨_, rfl⟩
  have hplt : p < twoTo (f.fractionBits + f.exponentBits) := hp ▸ Nat.mod_lt _ (twoTo_pos _)
  have hx' : x = ofPattern x.isNegative p := hp ▸ eq_ofPattern x
  have hfield : p / twoTo f.fractionBits < f.reservedExponent := by
    have hlt : p / twoTo f.fractionBits < twoTo f.exponentBits :=
      Nat.div_lt_of_lt_mul (twoTo_add _ _ ▸ hplt)
    have hne : p / twoTo f.fractionBits ≠ f.reservedExponent := by
      intro heq
      rw [hx', datum, exponentField_ofPattern hplt, if_pos heq] at hx
      split at hx <;> cases hx
    rw [BinaryFormat.reservedExponent] at hne ⊢
    omega
  obtain ⟨m', e', hhas, rfl⟩ := exists_pattern hfield
  rw [hx', datum_ofPattern hhas] at hx
  cases hx
  exact ⟨hhas, hx'⟩

theorem isFinite_iff {x : BinaryFloat f} :
    x.isFinite = true ↔ ∃ negative m e, x.datum = .finite negative m e := by
  rw [isFinite, bne_iff_ne, datum]
  by_cases h : x.exponentField = f.reservedExponent
  · rw [if_pos h]
    split <;> simp [h]
  · rw [if_neg h]
    split <;> simp [h]

end BinaryFloat

end KeyedSeries

import Mathlib.Algebra.Order.Field.Rat
import Mathlib.Tactic.Positivity
import Mathlib.Tactic.Ring
import KeyedSeries.Proofs.Json.Numeral

/-!
# Numerals read back part by part

A numeral whose parts are such as numerals have (`KeyedSeries.Numeral.IsProper`) is
read back from what is written of it, with every part where it was
(`KeyedSeries.Numeral.ofBytes?_bytes`). What it stands for is a decimal fraction
(`KeyedSeries.Numeral.value`), and **as long as its digits fit into 64 bits, none of
them is lost**: the significand and the scale are those of the fraction
(`KeyedSeries.Numeral.value_eq_of_fits`).
-/

namespace KeyedSeries.Numeral

/-! ### Writing part by part -/

/-- The fraction as it is written. -/
def fractionBytes : Bytes → Bytes
  | [] => []
  | d :: ds => 0x2e :: d :: ds

/-- The exponent part as it is written, always with a sign. -/
def exponentBytes : Option Int → Bytes
  | none => []
  | some e => 0x65 :: (if e < 0 then 0x2d else 0x2b) :: decimal e.natAbs

/-- The numeral as it is written. -/
def bytes (n : Numeral) : Bytes :=
  (if n.negative then [0x2d] else []) ++
    (n.whole ++ (fractionBytes n.fraction ++ exponentBytes n.exponent))

/-- The parts are such as numerals have: digits before the point, without a needless
zero in front, and digits behind it. -/
structure IsProper (n : Numeral) : Prop where
  /-- There are digits before the point. -/
  whole : ∀ b ∈ n.whole, isDigit b = true
  /-- The first one is no zero, or the only one. -/
  head : n.whole = [0x30] ∨ ∃ b rest, n.whole = b :: rest ∧ b ≠ 0x30
  /-- There are digits behind the point. -/
  fraction : ∀ b ∈ n.fraction, isDigit b = true

/-! ### Reading part by part -/

/-- Digits are read up to the first byte that is none. -/
theorem someDigits?_append {ds rest : Bytes} (hds : ∀ b ∈ ds, isDigit b = true) (hne : ds ≠ [])
    (hrest : ∀ b ∈ rest.head?, isDigit b = false) : someDigits? (ds ++ rest) = some (ds, rest) := by
  have htake : (ds ++ rest).takeWhile isDigit = ds := by
    rw [List.takeWhile_append_of_pos hds]
    cases rest with
    | nil => simp
    | cons b rest => simp [hrest b rfl]
  have hdrop : (ds ++ rest).dropWhile isDigit = rest := by
    rw [List.dropWhile_append_of_pos hds]
    cases rest with
    | nil => rfl
    | cons b rest => simp [hrest b rfl]
  rw [someDigits?, htake, hdrop]
  cases ds with
  | nil => exact absurd rfl hne
  | cons b ds => rfl

theorem exponent?_exponentBytes (e : Option Int) : exponent? (exponentBytes e) = some (e, []) := by
  cases e with
  | none => rfl
  | some e =>
    have hdigits : someDigits? (decimal e.natAbs) = some (decimal e.natAbs, []) := by
      have hne : decimal e.natAbs ≠ [] := by
        obtain ⟨b, rest, hcons, -⟩ := (decimal_spec e.natAbs).2.2
        simp [hcons]
      have h : someDigits? (decimal e.natAbs ++ []) = some (decimal e.natAbs, []) :=
        someDigits?_append (fun b => isDigit_of_mem_decimal) hne nofun
      rwa [List.append_nil] at h
    by_cases he : e < 0
    · have habs : Datum.signed true e.natAbs = e := by
        rw [Datum.signed, if_pos rfl]
        omega
      simp [exponentBytes, he, exponent?, sign, hdigits, habs]
    · have habs : Datum.signed false e.natAbs = e := by
        rw [Datum.signed, if_neg Bool.false_ne_true]
        omega
      simp [exponentBytes, he, exponent?, hdigits, habs]

theorem head?_exponentBytes (e : Option Int) : ∀ b ∈ (exponentBytes e).head?, b = 0x65 := by
  cases e with
  | none => exact nofun
  | some e => simp [exponentBytes]

theorem fraction?_append {ds rest : Bytes} (hds : ∀ b ∈ ds, isDigit b = true)
    (hrest : ∀ b ∈ rest.head?, b = 0x65) :
    fraction? (fractionBytes ds ++ rest) = some (ds, rest) := by
  cases ds with
  | nil =>
    rw [fractionBytes, List.nil_append, fraction?.eq_def]
    split
    · exact absurd (hrest _ rfl) (by decide)
    · rfl
  | cons d ds =>
    rw [fractionBytes, List.cons_append, fraction?]
    refine someDigits?_append hds (List.cons_ne_nil d ds) fun b hb => ?_
    rw [hrest b hb]
    decide

variable {n : Numeral}

/-- What comes behind the digits before the point is no digit. -/
theorem head?_behind_whole (n : Numeral) :
    ∀ b ∈ (fractionBytes n.fraction ++ exponentBytes n.exponent).head?, isDigit b = false := by
  cases hfraction : n.fraction with
  | nil =>
    intro b hb
    rw [head?_exponentBytes n.exponent b (by simpa [fractionBytes] using hb)]
    decide
  | cons d ds =>
    intro b hb
    obtain rfl : 0x2e = b := by simpa [fractionBytes] using hb
    decide

/-- **A numeral is read back** from what is written of it. -/
theorem ofBytes?_bytes (h : n.IsProper) : ofBytes? n.bytes = some n := by
  obtain ⟨negative, whole, fraction, exponent⟩ := n
  obtain ⟨hwhole, hhead, hfraction⟩ := h
  have hbehind := head?_behind_whole ⟨negative, whole, fraction, exponent⟩
  have hne : whole ≠ [] := by
    rcases hhead with hzero | ⟨b, rest, hcons, -⟩ <;> simp_all
  have hsign : sign (bytes ⟨negative, whole, fraction, exponent⟩) =
      (negative, whole ++ (fractionBytes fraction ++ exponentBytes exponent)) := by
    cases negative with
    | true => rfl
    | false =>
      -- The first digit is no minus sign.
      obtain ⟨b, rest, hcons⟩ := List.exists_cons_of_ne_nil hne
      have hb : isDigit b = true := hwhole b (by simp [hcons])
      simp only [bytes, hcons, Bool.false_eq_true, if_false, List.nil_append, List.cons_append]
      rw [sign.eq_def]
      split
      · next heq =>
        cases heq
        exact absurd hb (by decide)
      · rfl
  have hread : whole? (whole ++ (fractionBytes fraction ++ exponentBytes exponent)) =
      some (whole, fractionBytes fraction ++ exponentBytes exponent) := by
    rw [whole?, someDigits?_append hwhole hne hbehind]
    -- A zero in front would have to be the only digit.
    rcases hhead with rfl | ⟨b, rest, rfl, hb⟩
    · rfl
    · split
      · next heq =>
        cases heq
        exact absurd rfl hb
      · rfl
  rw [ofBytes?, hsign]
  simp only [hread, fraction?_append hfraction (head?_exponentBytes exponent),
    exponent?_exponentBytes]

theorem isNumeralByte_of_mem_bytes (h : n.IsProper) {b : UInt8} (hb : b ∈ n.bytes) :
    JsonTree.isNumeralByte b = true := by
  have hdigit : ∀ {b : UInt8}, isDigit b = true → JsonTree.isNumeralByte b = true := by
    intro b hb
    simp [JsonTree.isNumeralByte, hb]
  simp only [bytes, List.mem_append] at hb
  rcases hb with hb | hb | hb | hb
  · split at hb
    · rw [List.mem_singleton.mp hb]
      decide
    · cases hb
  · exact hdigit (h.whole b hb)
  · cases hfraction : n.fraction with
    | nil => simp [hfraction, fractionBytes] at hb
    | cons d ds =>
      rw [hfraction, fractionBytes, List.mem_cons] at hb
      rcases hb with rfl | hb
      · decide
      · exact hdigit (h.fraction b (by rwa [hfraction]))
  · cases hexponent : n.exponent with
    | none => simp [hexponent, exponentBytes] at hb
    | some e =>
      rw [hexponent, exponentBytes, List.mem_cons, List.mem_cons] at hb
      rcases hb with rfl | rfl | hb
      · decide
      · split <;> decide
      · exact hdigit (isDigit_of_mem_decimal hb)

/-! ### What a numeral stands for -/

theorem natOf_foldl (k : Nat) (ds : Bytes) :
    ds.foldl (fun n b => 10 * n + (b.toNat - 0x30)) k = k * 10 ^ ds.length + natOf ds := by
  induction ds generalizing k with
  | nil => simp [natOf]
  | cons d ds ih =>
    rw [natOf, List.foldl_cons, List.foldl_cons, ih, ih, List.length_cons, pow_succ]
    ring

theorem natOf_append (a b : Bytes) : natOf (a ++ b) = natOf a * 10 ^ b.length + natOf b := by
  rw [natOf, List.foldl_append, natOf_foldl]
  rfl

theorem natOf_cons (d : UInt8) (ds : Bytes) :
    natOf (d :: ds) = (d.toNat - 0x30) * 10 ^ ds.length + natOf ds := by
  rw [← List.singleton_append, natOf_append]
  simp [natOf]

theorem natOf_lt {ds : Bytes} (h : ∀ b ∈ ds, isDigit b = true) : natOf ds < 10 ^ ds.length := by
  induction ds with
  | nil => simp [natOf]
  | cons d ds ih =>
    obtain ⟨hd, hds⟩ := List.forall_mem_cons.mp h
    have hlt := ih hds
    have hnine : d.toNat - 0x30 ≤ 9 := by
      simp only [isDigit, Bool.and_eq_true, decide_eq_true_eq, UInt8.le_iff_toNat_le] at hd
      have := hd.2
      simp only [UInt8.reduceToNat] at this
      omega
    have hmul : (d.toNat - 0x30) * 10 ^ ds.length ≤ 9 * 10 ^ ds.length :=
      Nat.mul_le_mul_right _ hnine
    rw [natOf_cons, List.length_cons, pow_succ]
    omega

theorem natOf_zeros (k : Nat) : natOf (List.replicate k 0x30) = 0 := by
  induction k with
  | zero => rfl
  | succ k ih => rw [List.replicate_succ, natOf_cons, ih]; simp

theorem natOf_zeros_append (k : Nat) (ds : Bytes) :
    natOf (List.replicate k 0x30 ++ ds) = natOf ds := by
  rw [natOf_append, natOf_zeros, Nat.zero_mul, Nat.zero_add]

/-- The decimal fraction that the numeral writes, without its sign. -/
def value (n : Numeral) : ℚ :=
  natOf (n.whole ++ n.fraction) * 10 ^ (n.exponent.getD 0 - n.fraction.length : ℤ)

/-! ### Digits that fit into 64 bits -/

/-- Digits that fit are all taken. -/
theorem fill_of_fits {k : Nat} {ds : Bytes}
    (h : k * 10 ^ ds.length + natOf ds < UInt64.size) :
    fill k ds = (k * 10 ^ ds.length + natOf ds, []) := by
  induction ds generalizing k with
  | nil => simp [fill, natOf]
  | cons d ds ih =>
    have hsplit : k * 10 ^ (d :: ds).length + natOf (d :: ds) =
        (10 * k + (d.toNat - 0x30)) * 10 ^ ds.length + natOf ds := by
      rw [natOf_cons, List.length_cons, pow_succ]
      ring
    rw [hsplit] at h ⊢
    have hnext : 10 * k + (d.toNat - 0x30) < UInt64.size := by
      refine lt_of_le_of_lt ?_ h
      exact le_trans (Nat.le_mul_of_pos_right _ (by positivity)) (Nat.le_add_right _ _)
    rw [fill, if_pos hnext, ih h]

theorem fill_of_fits_whole (h : natOf (n.whole ++ n.fraction) < UInt64.size) :
    fill 0 n.whole = (natOf n.whole, []) ∧
      fill (natOf n.whole) n.fraction = (natOf (n.whole ++ n.fraction), []) := by
  rw [natOf_append] at h ⊢
  refine ⟨?_, fill_of_fits h⟩
  have hwhole : natOf n.whole < UInt64.size := by
    refine lt_of_le_of_lt ?_ h
    exact le_trans (Nat.le_mul_of_pos_right _ (by positivity)) (Nat.le_add_right _ _)
  have hfill : fill 0 n.whole = (0 * 10 ^ n.whole.length + natOf n.whole, []) :=
    fill_of_fits (by simpa using hwhole)
  simpa using hfill

theorem significand_of_fits (h : natOf (n.whole ++ n.fraction) < UInt64.size) :
    n.significand = natOf (n.whole ++ n.fraction) := by
  obtain ⟨hwhole, hfraction⟩ := fill_of_fits_whole h
  rw [significand, hwhole, hfraction]

theorem scale_of_fits (h : natOf (n.whole ++ n.fraction) < UInt64.size) :
    n.scale = n.exponent.getD 0 - n.fraction.length := by
  obtain ⟨hwhole, hfraction⟩ := fill_of_fits_whole h
  simp [scale, hwhole, hfraction]

/-- **No digit is lost** of those that fit into 64 bits. -/
theorem value_eq_of_fits (h : natOf (n.whole ++ n.fraction) < UInt64.size) :
    n.value = n.significand * 10 ^ n.scale := by
  rw [value, significand_of_fits h, scale_of_fits h]

end KeyedSeries.Numeral

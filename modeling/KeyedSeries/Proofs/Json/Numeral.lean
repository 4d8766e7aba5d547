import Mathlib.Data.List.TakeWhile
import Mathlib.Tactic.ByContra
import KeyedSeries.Json.Reader

/-!
# Numerals of integers read back

The numeral of an integer is read as that integer
(`KeyedSeries.Numeral.int?_ofInt`). It has no zero in front, no fraction and no
exponent, and zero is written without a sign; each of these is needed, because a
numeral that has one of them is no integer.
-/

namespace KeyedSeries.Numeral

/-! ### Digits -/

/-- The digits of a number, as bytes. -/
def decimal (n : Nat) : Bytes := (digitsOf n).map Bytes.ascii

theorem ofInt_eq (i : Int) : ofInt i = (if i < 0 then [0x2d] else []) ++ decimal i.natAbs := rfl

theorem decimal_of_lt {n : Nat} (h : n < 10) : decimal n = [Bytes.ascii n.digitChar] := by
  rw [decimal, digitsOf, Nat.toDigits_of_lt_base h, List.map_singleton]

theorem decimal_of_le {n : Nat} (h : 10 ≤ n) :
    decimal n = decimal (n / 10) ++ [Bytes.ascii (n % 10).digitChar] := by
  rw [decimal, digitsOf, Nat.toDigits_of_base_le (by omega) h, List.map_append, List.map_singleton]
  rfl

theorem isDigit_digitChar : ∀ n < 10, isDigit (Bytes.ascii n.digitChar) = true := by decide

theorem toNat_digitChar : ∀ n < 10, (Bytes.ascii n.digitChar).toNat - 0x30 = n := by decide

/-- All digits are digits, and they write the number. -/
theorem decimal_spec (n : Nat) :
    (∀ b ∈ decimal n, isDigit b = true) ∧ natOf (decimal n) = n ∧
      ∃ b rest, decimal n = b :: rest ∧ (b = 0x30 → n = 0) := by
  induction n using Nat.strongRecOn with
  | ind n ih =>
    by_cases h : n < 10
    · rw [decimal_of_lt h]
      refine ⟨?_, ?_, _, [], rfl, ?_⟩
      · intro b hb
        rw [List.mem_singleton.mp hb]
        exact isDigit_digitChar n h
      · rw [natOf, List.foldl_cons, List.foldl_nil, toNat_digitChar n h]
        omega
      · intro hzero
        have hn := toNat_digitChar n h
        rw [hzero] at hn
        exact hn.symm.trans (by decide)
    · -- The last digit follows those of a tenth of the number.
      have hle : 10 ≤ n := by omega
      obtain ⟨hdigits, hvalue, b, rest, hhead, hzero⟩ := ih (n / 10) (by omega)
      rw [decimal_of_le hle]
      have hmod : n % 10 < 10 := by omega
      refine ⟨?_, ?_, b, rest ++ [Bytes.ascii (n % 10).digitChar], by rw [hhead]; rfl, ?_⟩
      · intro c hc
        rcases List.mem_append.mp hc with hc | hc
        · exact hdigits c hc
        · rw [List.mem_singleton.mp hc]
          exact isDigit_digitChar _ hmod
      · rw [natOf] at hvalue
        rw [natOf, List.foldl_append, hvalue, List.foldl_cons, List.foldl_nil,
          toNat_digitChar _ hmod]
        omega
      · intro hb
        have := hzero hb
        omega

theorem isDigit_of_mem_decimal {n : Nat} {b : UInt8} (h : b ∈ decimal n) : isDigit b = true :=
  (decimal_spec n).1 b h

@[simp] theorem natOf_decimal (n : Nat) : natOf (decimal n) = n := (decimal_spec n).2.1

/-- The digits of a number are its digits before the point. -/
theorem whole?_decimal (n : Nat) : whole? (decimal n) = some (decimal n, []) := by
  obtain ⟨b, rest, hhead, hzero⟩ := (decimal_spec n).2.2
  have hall : ∀ c ∈ decimal n, isDigit c = true := fun c hc => isDigit_of_mem_decimal hc
  have htake : (decimal n).takeWhile isDigit = decimal n := List.takeWhile_eq_self_iff.mpr hall
  have hdrop : (decimal n).dropWhile isDigit = [] := List.dropWhile_eq_nil_iff.mpr hall
  have hsome : someDigits? (decimal n) = some (decimal n, []) := by
    rw [someDigits?, htake, hdrop, hhead]
  rw [whole?, hsome, hhead]
  split
  · next c cs hcons =>
    -- A zero in front would have to be the only digit.
    obtain ⟨hb, -⟩ := hcons
    have hn := hzero rfl
    rw [hn, decimal_of_lt (by omega)] at hhead
    cases hhead
  · rfl

/-! ### Integers -/

theorem sign_ofInt (i : Int) : sign (ofInt i) = (decide (i < 0), decimal i.natAbs) := by
  rw [ofInt_eq]
  by_cases h : i < 0
  · rw [if_pos h]
    simp [sign, h]
  · obtain ⟨b, rest, hhead, -⟩ := (decimal_spec i.natAbs).2.2
    have hb : isDigit b = true := isDigit_of_mem_decimal (n := i.natAbs) (by rw [hhead]; simp)
    rw [if_neg h, List.nil_append, hhead, sign.eq_def]
    split
    · next heq =>
      cases heq
      exact absurd hb (by decide)
    · simp [h]

/-- **The numeral of an integer** has a sign and digits and nothing else. -/
theorem ofBytes?_ofInt (i : Int) :
    ofBytes? (ofInt i) = some ⟨decide (i < 0), decimal i.natAbs, [], none⟩ := by
  rw [ofBytes?, sign_ofInt]
  simp only [whole?_decimal]
  simp [fraction?, exponent?]

/-- **The numeral of an integer is read as that integer.** -/
theorem int?_ofInt (i : Int) : (JsonTree.ofInt i).int? = some i := by
  rw [JsonTree.int?, JsonTree.ofInt, JsonTree.numeral?, ofBytes?_ofInt, Option.bind_some, int?]
  by_cases h : i < 0
  · have hne : (i.natAbs == 0) = false := by
      rw [beq_eq_false_iff_ne]
      omega
    simp only [isWhole, List.isEmpty_nil, Option.isNone_none, natOf_decimal, h, decide_true, hne,
      Bool.and_false, Bool.not_false, Bool.and_true, if_true, Datum.signed, Option.some.injEq]
    omega
  · simp only [isWhole, List.isEmpty_nil, Option.isNone_none, natOf_decimal, h, decide_false,
      Bool.false_and, Bool.not_false, Bool.and_true, if_true, Datum.signed, Bool.false_eq_true,
      if_false, Option.some.injEq]
    omega

theorem isNumeralByte_of_mem_ofInt {i : Int} {b : UInt8} (h : b ∈ ofInt i) :
    JsonTree.isNumeralByte b = true := by
  rw [ofInt_eq, List.mem_append] at h
  rcases h with h | h
  · split at h
    · rw [List.mem_singleton.mp h]
      decide
    · cases h
  · simp [JsonTree.isNumeralByte, isDigit_of_mem_decimal h]

/-- The numeral of an integer needs no escape where it stands as a name. -/
theorem plain_of_mem_ofInt {i : Int} {b : UInt8} (h : b ∈ ofInt i) :
    0x20 ≤ b ∧ b ≠ 0x22 ∧ b ≠ 0x5c := by
  have hnumeral := isNumeralByte_of_mem_ofInt h
  refine ⟨?_, ?_, ?_⟩
  · by_contra hlt
    simp only [JsonTree.isNumeralByte, isDigit, Bool.or_eq_true, Bool.and_eq_true,
      decide_eq_true_eq] at hnumeral
    grind
  · rintro rfl
    exact absurd hnumeral (by decide)
  · rintro rfl
    exact absurd hnumeral (by decide)

end KeyedSeries.Numeral

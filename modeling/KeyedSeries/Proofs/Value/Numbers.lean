import KeyedSeries.Proofs.Number.Order
import KeyedSeries.Proofs.Value.Order

/-!
# Which number a value is

Integers and floating-point numbers of any width are numbers
(`KeyedSeries.Value.number?`, `KeyedSeries.Value.exists_number?_iff`), and they are compared
as such, with one exception: an integer of 64 bits that meets a floating-point number is
rounded to 64-bit floating point before. Rounding keeps the order, and so the comparison is
never the wrong way round; but **an integer of more than 53 bits counts as equal to the
floating-point number nearest to it** (`KeyedSeries.Value.IsTakenFor`). All other pairs are
compared exactly (`KeyedSeries.Value.compare?_of_numbers`).

So to be smaller passes on from one pair to the next, whatever the types are, and to be
equal does not: an integer and its successor can both be equal to a floating-point number
without being equal to each other (`KeyedSeries.Value.equal_through_double`).
-/

namespace KeyedSeries

/-! ### Numbers that need no rounding -/

namespace BinaryFormat

/-- An integer is its absolute value with its sign. -/
theorem signed_natAbs (i : Int) : Datum.signed (i < 0) i.natAbs = i := by
  rw [Datum.signed]
  split
  · next h =>
    have hneg : i < 0 := of_decide_eq_true h
    omega
  · next h =>
    have hnonneg : ¬ i < 0 := fun hneg => h (decide_eq_true hneg)
    omega

theorem has_zero : double.Has 0 double.leastExponent :=
  ⟨by decide, le_refl _, .inl rfl, by decide⟩

namespace Rounds

/-- A whole number of few bits, with a sign, times a power of two that is neither very
large nor very small, is one of 64 bits. -/
theorem double_of_lt (negative : Bool) {n : Nat} {s : Int} (hlt : n < 2 ^ 53)
    (hleast : -1022 ≤ s) (hgreatest : s ≤ 971) :
    double.Rounds (Datum.signed negative n * 2 ^ s) (Datum.signed negative n * 2 ^ s) := by
  rcases Nat.eq_zero_or_pos n with rfl | hn
  · simpa [Datum.signed] using of_has negative has_zero
  · obtain ⟨m, e, hhas, -, hv⟩ := exists_has (f := double) (s := s) hn hlt
      (by change -1074 + 52 ≤ s; omega) (by change s + 2 ≤ -1074 + 2047; omega)
    have hrounds := of_has negative hhas
    cases negative with
    | false => rwa [signed_false, hv, ← signed_false n] at hrounds
    | true => rwa [signed_true, neg_mul, hv, ← neg_mul, ← signed_true n] at hrounds

/-- Integers of no more than 53 bits are not rounded. -/
theorem double_of_natAbs_le {i : Int} (h : i.natAbs ≤ 2 ^ 53) : double.Rounds i i := by
  rcases h.lt_or_eq with hlt | heq
  · have hrounds := double_of_lt (i < 0) hlt (s := 0) (by omega) (by omega)
    rwa [zpow_zero, mul_one, signed_natAbs] at hrounds
  · -- A one with 53 zeros behind it.
    have hrounds := double_of_lt (i < 0) (n := 1) (s := 53) (by omega) (by omega) (by omega)
    have hi : ((Datum.signed (i < 0) 1 : Int) : ℚ) * 2 ^ (53 : Int) = i := by
      have hsigned : Datum.signed (i < 0) 1 * 2 ^ 53 = i := by
        rw [Datum.signed]
        split <;> simp_all <;> omega
      exact_mod_cast congrArg (Int.cast : Int → ℚ) hsigned
    rwa [hi] at hrounds

/-- A fraction is rounded to one number only. -/
theorem unique {f : BinaryFormat} {q v v' : ℚ} (h : f.Rounds q v) (h' : f.Rounds q v') : v = v' :=
  le_antisymm (h.mono h' le_rfl) (h'.mono h le_rfl)

/-- Integers of more than 53 bits are not rounded to any of fewer. -/
theorem le_natAbs {i j : Int} (h : double.Rounds i j) (hi : 2 ^ 53 < i.natAbs) :
    2 ^ 53 ≤ j.natAbs := by
  have hpos := double_of_natAbs_le (i := 2 ^ 53) (by decide)
  have hneg := double_of_natAbs_le (i := -2 ^ 53) (by decide)
  rcases le_total 0 i with hnonneg | hnonpos
  · have hle : (2 ^ 53 : Int) ≤ i := by omega
    have hj : (2 ^ 53 : Int) ≤ j := by exact_mod_cast hpos.mono h (by exact_mod_cast hle)
    omega
  · have hle : i ≤ -2 ^ 53 := by omega
    have hj : j ≤ -2 ^ 53 := by exact_mod_cast h.mono hneg (by exact_mod_cast hle)
    omega

/-- **No number of the format is between a fraction and what it is rounded to.** -/
theorem cmp_eq_or_eq {f : BinaryFormat} {q v r : ℚ} (h : f.Rounds q v) (hr : f.Rounds r r) :
    cmp v r = cmp q r ∨ r = v := by
  rcases lt_trichotomy v r with hlt | rfl | hgt
  · have hq : q < r := lt_of_not_ge fun hle => hlt.not_ge (hr.mono h hle)
    exact .inl (((cmp_eq_lt_iff _ _).mpr hlt).trans ((cmp_eq_lt_iff _ _).mpr hq).symm)
  · exact .inr rfl
  · have hq : r < q := lt_of_not_ge fun hle => hgt.not_ge (h.mono hr hle)
    exact .inl (((cmp_eq_gt_iff _ _).mpr hgt).trans ((cmp_eq_gt_iff _ _).mpr hq).symm)

end Rounds

end BinaryFormat

namespace BinaryFloat

open BinaryFormat

/-- An integer of 64 bits is rounded to a finite number. -/
theorem exists_rounds_ofInt {i : Int} (h : i.natAbs ≤ 2 ^ 63) : ∃ v,
    (ofInt (f := .double) i).datum.value? = some (.ofRat v) ∧ double.Rounds i v := by
  obtain ⟨m, e, hhas, hnearest⟩ : ∃ m e, double.Has m e ∧
      double.nearest i.natAbs 1 = double.pattern m e := by
    rcases Nat.eq_zero_or_pos i.natAbs with hzero | hpos
    · refine ⟨0, double.leastExponent, has_zero, ?_⟩
      rw [hzero]
      rfl
    · have hbound : double.nearest (2 ^ 63) 1 < double.infinityPattern := by decide +kernel
      have hfinite : double.nearest i.natAbs 1 < double.infinityPattern := by
        refine lt_of_le_of_lt (nearest_mono Nat.one_pos Nat.one_pos ?_) hbound
        rw [Nat.cast_one, div_one, div_one]
        exact_mod_cast h
      obtain ⟨m, e, hhas, hnearest, -⟩ := exists_has_nearest hpos Nat.one_pos hfinite
      exact ⟨m, e, hhas, hnearest⟩
  refine ⟨Datum.signed (i < 0) m * 2 ^ e, ?_,
    i < 0, i.natAbs, 1, m, e, Nat.one_pos, ?_, hhas, hnearest, rfl⟩
  · rw [ofInt, ofFraction, hnearest, datum_ofPattern hhas]
    rfl
  · rw [signed_natAbs, Nat.cast_one, div_one]

/-- Numbers of 64 bits need no rounding. -/
theorem rounds_double {x : BinaryFloat .double} {negative : Bool} {m : Nat} {e : Int}
    (hx : x.datum = .finite negative m e) :
    double.Rounds (Datum.signed negative m * 2 ^ e) (Datum.signed negative m * 2 ^ e) :=
  Rounds.of_has negative (eq_ofPattern_of_datum hx).1

/-- Numbers of 32 bits are numbers of 64 bits. -/
theorem rounds_single {x : BinaryFloat .single} {negative : Bool} {m : Nat} {e : Int}
    (hx : x.datum = .finite negative m e) :
    double.Rounds (Datum.signed negative m * 2 ^ e) (Datum.signed negative m * 2 ^ e) := by
  obtain ⟨hlt, hleast, hgreatest⟩ := single_bounds (eq_ofPattern_of_datum hx).1
  exact Rounds.double_of_lt negative (by omega) (by omega) (by omega)

end BinaryFloat

/-! ### Values as numbers -/

namespace Value

variable {a b c : Value} {x y z r s t : ExtendedRat}

/-- The number that a value is, if it is one: not a truth value, not bytes, and not a
pattern that stands for no number. -/
def number? : Value → Option ExtendedRat
  | integer i => some (.ofRat i.toInt)
  | long i => some (.ofRat i.toInt)
  | float x => x.datum.value?
  | double x => x.datum.value?
  | boolean _ | binary _ => none

/-- The number that a value counts as in a comparison across types. -/
def rounded? (a : Value) : Option ExtendedRat := a.datum?.bind Datum.value?

/-- The first value is an integer of more than 53 bits and is taken for the second one:
another number, which is the floating-point number that the integer is rounded to. -/
def IsTakenFor (a b : Value) : Prop :=
  (∃ i, a = long i ∧ 2 ^ 53 < i.toInt.natAbs) ∧ (b.dataType = .float ∨ b.dataType = .double) ∧
    b.number? = a.rounded? ∧ b.number? ≠ a.number?

/-- The number is an infinity, or one of 64-bit floating point. -/
def IsRepresented (x : ExtendedRat) : Prop :=
  x = ⊥ ∨ x = ⊤ ∨ ∃ q, x = .ofRat q ∧ BinaryFormat.double.Rounds q q

theorem isRepresented_of_value? {d : Datum} (hd : d.value? = some x)
    (hfinite : ∀ negative m e, d = .finite negative m e →
      BinaryFormat.double.Rounds (Datum.signed negative m * 2 ^ e)
        (Datum.signed negative m * 2 ^ e)) : IsRepresented x := by
  cases d with
  | nan => cases hd
  | infinity negative =>
    cases negative with
    | true => exact .inl (Option.some.inj hd).symm
    | false => exact .inr (.inl (Option.some.inj hd).symm)
  | finite negative m e =>
    exact .inr (.inr ⟨_, (Option.some.inj hd).symm, hfinite negative m e rfl⟩)

theorem natAbs_integer_le (i : Int32) : i.toInt.natAbs ≤ 2 ^ 53 := by
  have hle := i.le_toInt
  have hlt := i.toInt_lt
  omega

theorem natAbs_long_le (i : Int64) : i.toInt.natAbs ≤ 2 ^ 63 := by
  have hle := i.le_toInt
  have hlt := i.toInt_lt
  omega

/-- Integers of few bits count as themselves. -/
theorem value?_ofInt_of_natAbs_le {i : Int} (h : i.natAbs ≤ 2 ^ 53) :
    (BinaryFloat.ofInt (f := .double) i).datum.value? = some (.ofRat i) := by
  obtain ⟨v, hv, hrounds⟩ := BinaryFloat.exists_rounds_ofInt (h.trans (by decide))
  rw [hv, hrounds.unique (BinaryFormat.Rounds.double_of_natAbs_le h)]

theorem exists_long_of_dataType (h : a.dataType = .long) : ∃ i, a = long i := by
  cases a with
  | long i => exact ⟨i, rfl⟩
  | boolean | integer | float | double | binary => cases h

/-- Only integers of 64 bits may count as another number than they are. -/
theorem rounded?_eq_number? (hlong : a.dataType ≠ .long) : a.rounded? = a.number? := by
  cases a with
  | boolean | binary => rfl
  | integer i => exact value?_ofInt_of_natAbs_le (natAbs_integer_le i)
  | long i => exact absurd rfl hlong
  | float x | double x => rfl

/-- All other numbers are numbers of 64-bit floating point. -/
theorem isRepresented_of_number? (hlong : a.dataType ≠ .long) (ha : a.number? = some x) :
    IsRepresented x := by
  cases a with
  | boolean | binary => cases ha
  | integer i =>
    exact .inr (.inr ⟨_, (Option.some.inj ha).symm,
      BinaryFormat.Rounds.double_of_natAbs_le (natAbs_integer_le i)⟩)
  | long i => exact absurd rfl hlong
  | float f => exact isRepresented_of_value? ha fun _ _ _ => BinaryFloat.rounds_single
  | double f => exact isRepresented_of_value? ha fun _ _ _ => BinaryFloat.rounds_double

/-- What an integer of 64 bits counts as. -/
theorem exists_rounded?_long (i : Int64) : ∃ v, (long i).rounded? = some (.ofRat v) ∧
    BinaryFormat.double.Rounds i.toInt v :=
  BinaryFloat.exists_rounds_ofInt (natAbs_long_le i)

/-- Every number counts as some number. -/
theorem exists_rounded? (ha : a.number? = some x) : ∃ r, a.rounded? = some r := by
  by_cases hlong : a.dataType = .long
  · obtain ⟨i, rfl⟩ := exists_long_of_dataType hlong
    obtain ⟨v, hv, -⟩ := exists_rounded?_long i
    exact ⟨_, hv⟩
  · exact ⟨x, (rounded?_eq_number? hlong).trans ha⟩

/-- **What is a number**: all values of the numeric types that do not stand for no number. -/
theorem exists_number?_iff : (∃ x, a.number? = some x) ↔
    a.dataType.isNumeric = true ∧ a.datum? ≠ some .nan := by
  have hdatum : ∀ d : Datum, (∃ x, d.value? = some x) ↔ some d ≠ some .nan := by
    intro d
    cases d with
    | nan => simp [Datum.value?]
    | infinity negative => cases negative <;> simp [Datum.value?]
    | finite negative m e => simp [Datum.value?]
  -- Integers are numbers, and they are rounded to numbers.
  have hrounded : ∀ {a : Value}, (∃ x, a.number? = some x) → a.datum? ≠ some .nan := by
    rintro a ⟨x, ha⟩ hnan
    obtain ⟨r, hr⟩ := exists_rounded? ha
    rw [rounded?, hnan] at hr
    cases hr
  cases a with
  | boolean | binary => simp [number?, dataType, DataType.isNumeric]
  | integer i | long i => exact iff_of_true ⟨_, rfl⟩ ⟨rfl, hrounded ⟨_, rfl⟩⟩
  | float x | double x => exact (hdatum x.datum).trans (and_iff_right rfl).symm

/-! ### Comparisons of numbers -/

/-- Integers are compared as the rational numbers that they are. -/
theorem compare_eq_cmp_ofRat (i j : Int) : compare i j = cmp (ExtendedRat.ofRat i) (.ofRat j) := by
  rw [ExtendedRat.cmp_ofRat, ← cmp_eq_compare]
  exact ((Int.cast_strictMono (R := ℚ)).cmp_map_eq i j).symm

theorem compare?_integer (i j : Int32) :
    (integer i).compare? (integer j) = some (cmp (ExtendedRat.ofRat i.toInt) (.ofRat j.toInt)) := by
  rw [← compare_eq_cmp_ofRat]
  simp only [compare?, compare, compareOfLessAndEq, Int32.lt_iff_toInt_lt, ← Int32.toInt_inj]

/-- Two integers of 64 bits are compared exactly. -/
theorem compare?_long (i j : Int64) :
    (long i).compare? (long j) = some (cmp (ExtendedRat.ofRat i.toInt) (.ofRat j.toInt)) := by
  rw [← compare_eq_cmp_ofRat]
  simp only [compare?, compare, compareOfLessAndEq, Int64.lt_iff_toInt_lt, ← Int64.toInt_inj]

/-- All other pairs of numbers are compared as what they count as. -/
theorem compare?_eq_cmp_rounded (hlong : a.dataType ≠ .long ∨ b.dataType ≠ .long)
    (hr : a.rounded? = some r) (hs : b.rounded? = some s) :
    a.compare? b = some (cmp r s) := by
  obtain ⟨d, hd, hdr⟩ := Option.bind_eq_some_iff.mp hr
  obtain ⟨d', hd', hds⟩ := Option.bind_eq_some_iff.mp hs
  have hdata : (do let p ← a.datum?; let q ← b.datum?; p.compare? q : Option Ordering) =
      some (cmp r s) := by
    rw [hd, hd']
    exact Datum.compare?_eq_cmp hdr hds
  cases a with
  | boolean | binary => cases hd
  | integer i =>
    cases b with
    | integer j =>
      rw [rounded?_eq_number? DataType.noConfusion] at hr hs
      cases hr
      cases hs
      exact compare?_integer i j
    | boolean | binary => cases hd'
    | long | float | double => exact hdata
  | long i =>
    cases b with
    | long j => exact absurd rfl (hlong.resolve_left fun h => h rfl)
    | boolean | binary => cases hd'
    | integer | float | double => exact hdata
  | float f | double f =>
    cases b with
    | boolean | binary => cases hd'
    | integer | long | float | double => exact hdata

/-- **Two integers of 64 bits are in order, or what the values count as is**, strictly. -/
theorem rounded_of_lt (hr : a.rounded? = some r) (hs : b.rounded? = some s)
    (h : a.compare? b = some .lt) :
    r ≤ s ∧ (a.dataType ≠ .long ∨ b.dataType ≠ .long → r < s) := by
  have hlt : a.dataType ≠ .long ∨ b.dataType ≠ .long → r < s := fun hlong => by
    rw [compare?_eq_cmp_rounded hlong hr hs] at h
    exact (cmp_eq_lt_iff _ _).mp (Option.some.inj h)
  refine ⟨?_, hlt⟩
  by_cases hlong : a.dataType ≠ .long ∨ b.dataType ≠ .long
  · exact (hlt hlong).le
  · -- Rounding keeps the order of two integers.
    rw [not_or, not_not, not_not] at hlong
    obtain ⟨i, rfl⟩ := exists_long_of_dataType hlong.1
    obtain ⟨j, rfl⟩ := exists_long_of_dataType hlong.2
    obtain ⟨v, hv, hrounds⟩ := exists_rounded?_long i
    obtain ⟨w, hw, hrounds'⟩ := exists_rounded?_long j
    rw [hv] at hr
    rw [hw] at hs
    cases hr
    cases hs
    rw [compare?_long] at h
    have hlt := (cmp_eq_lt_iff _ _).mp (Option.some.inj h)
    have hle := hrounds.mono hrounds' (ExtendedRat.strictMono_ofRat.lt_iff_lt.mp hlt).le
    exact ExtendedRat.strictMono_ofRat.monotone hle

/-! ### Integers that are taken for other numbers -/

theorem IsTakenFor.dataType_ne (h : a.IsTakenFor b) : b.dataType ≠ .long := by
  rcases h.2.1 with hb | hb <;> rw [hb] <;> exact DataType.noConfusion

/-- A value counts as equal to what it is taken for. -/
theorem IsTakenFor.compare? (h : a.IsTakenFor b) (hb : b.number? = some y) :
    a.compare? b = some .eq := by
  have hrounded := (rounded?_eq_number? h.dataType_ne).trans hb
  rw [compare?_eq_cmp_rounded (.inr h.dataType_ne) (h.2.2.1 ▸ hb) hrounded, cmp_self_eq_eq]

/-- **An integer of 64 bits is compared exactly, or is taken for the other value.** -/
theorem compare?_long_or_isTakenFor (i : Int64) (hlong : b.dataType ≠ .long)
    (hb : b.number? = some y) :
    (long i).compare? b = some (cmp (.ofRat i.toInt) y) ∨ (long i).IsTakenFor b := by
  obtain ⟨v, hv, hrounds⟩ := exists_rounded?_long i
  rw [compare?_eq_cmp_rounded (.inr hlong) hv ((rounded?_eq_number? hlong).trans hb)]
  rcases isRepresented_of_number? hlong hb with rfl | rfl | ⟨q, rfl, hq⟩
  · left
    rw [(cmp_eq_gt_iff _ _).mpr (ExtendedRat.bot_lt_ofRat _),
      (cmp_eq_gt_iff _ _).mpr (ExtendedRat.bot_lt_ofRat _)]
  · left
    rw [(cmp_eq_lt_iff _ _).mpr (ExtendedRat.ofRat_lt_top _),
      (cmp_eq_lt_iff _ _).mpr (ExtendedRat.ofRat_lt_top _)]
  · rw [ExtendedRat.cmp_ofRat, ExtendedRat.cmp_ofRat]
    rcases hrounds.cmp_eq_or_eq hq with hcmp | rfl
    · exact .inl (congrArg some hcmp)
    · -- The integer is rounded to the other value.
      by_cases hexact : (i.toInt : ℚ) = q
      · exact .inl (by rw [hexact])
      · have hbits : 2 ^ 53 < i.toInt.natAbs := by
          by_contra hle
          exact hexact ((BinaryFormat.Rounds.double_of_natAbs_le (by omega)).unique hrounds)
        refine .inr ⟨⟨i, rfl, hbits⟩, ?_, hb.trans hv.symm, fun heq => ?_⟩
        · cases b with
          | boolean | binary => cases hb
          | integer j =>
            obtain rfl := ExtendedRat.ofRat_inj.mp (Option.some.inj hb)
            have hle := hrounds.le_natAbs hbits
            have hlow := j.le_toInt
            have hhigh := j.toInt_lt
            omega
          | long j => exact absurd rfl hlong
          | float => exact .inl rfl
          | double => exact .inr rfl
        · rw [hb] at heq
          exact hexact (ExtendedRat.ofRat_inj.mp (Option.some.inj heq)).symm

/-- **Numbers are compared exactly**, unless one is taken for the other. -/
theorem compare?_eq_cmp_or_isTakenFor (ha : a.number? = some x) (hb : b.number? = some y) :
    a.compare? b = some (cmp x y) ∨ a.IsTakenFor b ∨ b.IsTakenFor a := by
  by_cases hla : a.dataType = .long
  · obtain ⟨i, rfl⟩ := exists_long_of_dataType hla
    cases ha
    by_cases hlb : b.dataType = .long
    · obtain ⟨j, rfl⟩ := exists_long_of_dataType hlb
      cases hb
      exact .inl (compare?_long i j)
    · exact (compare?_long_or_isTakenFor i hlb hb).imp_right .inl
  · by_cases hlb : b.dataType = .long
    · obtain ⟨j, rfl⟩ := exists_long_of_dataType hlb
      cases hb
      refine (compare?_long_or_isTakenFor j hla ha).imp (fun h => ?_) .inr
      rw [compare?_swap, h, Option.map_some, cmp_swap]
    · exact .inl (compare?_eq_cmp_rounded (.inl hla) ((rounded?_eq_number? hla).trans ha)
        ((rounded?_eq_number? hlb).trans hb))

/-- Numbers are compared exactly just if none is taken for the other: then they count as
equal and are not. -/
theorem compare?_eq_cmp_iff (ha : a.number? = some x) (hb : b.number? = some y) :
    a.compare? b = some (cmp x y) ↔ ¬(a.IsTakenFor b ∨ b.IsTakenFor a) := by
  refine ⟨fun hexact htaken => ?_, (compare?_eq_cmp_or_isTakenFor ha hb).resolve_right⟩
  have hne : x ≠ y := by
    rintro rfl
    rcases htaken with h | h
    · exact h.2.2.2 (hb.trans ha.symm)
    · exact h.2.2.2 (ha.trans hb.symm)
  have heq : a.compare? b = some .eq := by
    rcases htaken with h | h
    · exact h.compare? hb
    · exact compare?_eq_comm.mp (h.compare? ha)
  rw [heq] at hexact
  exact hne ((cmp_eq_eq_iff _ _).mp (Option.some.inj hexact).symm)

/-- What is smaller is so exactly. -/
theorem lt_of_compare? (ha : a.number? = some x) (hb : b.number? = some y)
    (h : a.compare? b = some .lt) : x < y := by
  rcases compare?_eq_cmp_or_isTakenFor ha hb with hexact | htaken | htaken
  · rw [hexact] at h
    exact (cmp_eq_lt_iff _ _).mp (Option.some.inj h)
  · rw [htaken.compare? hb] at h
    cases h
  · rw [compare?_eq_comm.mp (htaken.compare? ha)] at h
    cases h

/-- **To be smaller passes on**, whatever the types are. -/
theorem compare?_lt_trans (ha : a.number? = some x) (hb : b.number? = some y)
    (hc : c.number? = some z) (hab : a.compare? b = some .lt) (hbc : b.compare? c = some .lt) :
    a.compare? c = some .lt := by
  by_cases hlong : a.dataType ≠ .long ∨ c.dataType ≠ .long
  · obtain ⟨r, hr⟩ := exists_rounded? ha
    obtain ⟨s, hs⟩ := exists_rounded? hb
    obtain ⟨t, ht⟩ := exists_rounded? hc
    obtain ⟨hrs, hrs'⟩ := rounded_of_lt hr hs hab
    obtain ⟨hst, hst'⟩ := rounded_of_lt hs ht hbc
    have hrt : r < t := by
      rcases hlong with hla | hlc
      · exact (hrs' (.inl hla)).trans_le hst
      · exact hrs.trans_lt (hst' (.inr hlc))
    rw [compare?_eq_cmp_rounded hlong hr ht, (cmp_eq_lt_iff _ _).mpr hrt]
  · -- Nothing is taken for an integer of 64 bits.
    rw [not_or, not_not, not_not] at hlong
    have hexact := (compare?_eq_cmp_iff ha hc).mpr fun htaken =>
      htaken.elim (fun h => h.dataType_ne hlong.2) fun h => h.dataType_ne hlong.1
    have hlt := (lt_of_compare? ha hb hab).trans (lt_of_compare? hb hc hbc)
    rw [hexact, (cmp_eq_lt_iff _ _).mpr hlt]

/-- **How numbers are compared**: exactly, unless an integer of more than 53 bits is taken
for a floating-point number, and then as equal. Swapping them swaps the order. To be
smaller passes on, and to be equal does so where nothing is taken for another number. -/
theorem compare?_of_numbers (ha : a.number? = some x) (hb : b.number? = some y)
    (hc : c.number? = some z) :
    (a.compare? b = some (cmp x y) ↔ ¬(a.IsTakenFor b ∨ b.IsTakenFor a)) ∧
    (a.IsTakenFor b ∨ b.IsTakenFor a → a.compare? b = some .eq) ∧
    b.compare? a = (a.compare? b).map (·.swap) ∧
    (a.compare? b = some .lt → b.compare? c = some .lt → a.compare? c = some .lt) ∧
    (a.compare? b = some .eq → b.compare? c = some .eq →
      ¬(a.IsTakenFor b ∨ b.IsTakenFor a) → ¬(b.IsTakenFor c ∨ c.IsTakenFor b) →
      a.compare? c = some .eq) := by
  refine ⟨compare?_eq_cmp_iff ha hb, ?_, compare?_swap a b, compare?_lt_trans ha hb hc, ?_⟩
  · rintro (htaken | htaken)
    · exact htaken.compare? hb
    · exact compare?_eq_comm.mp (htaken.compare? ha)
  · intro hab hbc hnone hnone'
    rw [(compare?_eq_cmp_iff ha hb).mpr hnone] at hab
    rw [(compare?_eq_cmp_iff hb hc).mpr hnone'] at hbc
    obtain rfl := (cmp_eq_eq_iff _ _).mp (Option.some.inj hab)
    obtain rfl := (cmp_eq_eq_iff _ _).mp (Option.some.inj hbc)
    rcases compare?_eq_cmp_or_isTakenFor ha hc with hexact | htaken | htaken
    · rw [hexact, cmp_self_eq_eq]
    · exact htaken.compare? hc
    · exact compare?_eq_comm.mp (htaken.compare? ha)

/-! ### Neighbours beyond 53 bits -/

/-- The floating-point number `2 ^ 53`, as its bits. -/
def twoTo53 : BinaryFloat .double := ⟨0x4340000000000000⟩

/-- The next floating-point number, `2 ^ 53 + 2`. -/
def twoTo53Next : BinaryFloat .double := ⟨0x4340000000000001⟩

theorem number?_twoTo53 : (double twoTo53).number? = some (.ofRat 9007199254740992) := by
  have hdatum : twoTo53.datum = .finite false 4503599627370496 1 := by decide +kernel
  rw [number?, hdatum, Datum.value?, BinaryFormat.signed_false]
  norm_num

theorem number?_twoTo53Next : (double twoTo53Next).number? = some (.ofRat 9007199254740994) := by
  have hdatum : twoTo53Next.datum = .finite false 4503599627370497 1 := by decide +kernel
  rw [number?, hdatum, Datum.value?, BinaryFormat.signed_false]
  norm_num

theorem number?_long_neighbour :
    (long 9007199254740993).number? = some (.ofRat 9007199254740993) := by
  have hint : (9007199254740993 : Int64).toInt = 9007199254740993 := by decide
  rw [number?, hint]
  norm_num

/-- The theorem at an integer of 54 bits, the floating-point number it is taken for, and
the next one. -/
theorem compare?_of_numbers_neighbours :
    (long 9007199254740993).number? = some (.ofRat 9007199254740993) ∧
    (double twoTo53).number? = some (.ofRat 9007199254740992) ∧
    (double twoTo53Next).number? = some (.ofRat 9007199254740994) ∧
    ((long 9007199254740993).compare? (double twoTo53) =
        some (cmp (ExtendedRat.ofRat 9007199254740993) (.ofRat 9007199254740992)) ↔
      ¬((long 9007199254740993).IsTakenFor (double twoTo53) ∨
        (double twoTo53).IsTakenFor (long 9007199254740993))) ∧
    ((long 9007199254740993).IsTakenFor (double twoTo53) ∨
        (double twoTo53).IsTakenFor (long 9007199254740993) →
      (long 9007199254740993).compare? (double twoTo53) = some .eq) ∧
    (double twoTo53).compare? (long 9007199254740993) =
      ((long 9007199254740993).compare? (double twoTo53)).map (·.swap) ∧
    ((long 9007199254740993).compare? (double twoTo53) = some .lt →
      (double twoTo53).compare? (double twoTo53Next) = some .lt →
      (long 9007199254740993).compare? (double twoTo53Next) = some .lt) ∧
    ((long 9007199254740993).compare? (double twoTo53) = some .eq →
      (double twoTo53).compare? (double twoTo53Next) = some .eq →
      ¬((long 9007199254740993).IsTakenFor (double twoTo53) ∨
        (double twoTo53).IsTakenFor (long 9007199254740993)) →
      ¬((double twoTo53).IsTakenFor (double twoTo53Next) ∨
        (double twoTo53Next).IsTakenFor (double twoTo53)) →
      (long 9007199254740993).compare? (double twoTo53Next) = some .eq) :=
  ⟨number?_long_neighbour, number?_twoTo53, number?_twoTo53Next,
    compare?_of_numbers number?_long_neighbour number?_twoTo53 number?_twoTo53Next⟩

/-- **To be equal does not pass on**: an integer of 54 bits is compared as equal to another
number, which is equal to the integer before it, and the two integers are not equal. -/
theorem equal_through_double :
    (long 9007199254740993).number? = some (.ofRat 9007199254740993) ∧
    (double twoTo53).number? = some (.ofRat 9007199254740992) ∧
    cmp (ExtendedRat.ofRat 9007199254740993) (.ofRat 9007199254740992) = .gt ∧
    (long 9007199254740993).compare? (double twoTo53) = some .eq ∧
    (double twoTo53).compare? (long 9007199254740992) = some .eq ∧
    (long 9007199254740993).compare? (long 9007199254740992) = some .gt := by
  refine ⟨number?_long_neighbour, number?_twoTo53, ?_, by decide +kernel, by decide +kernel,
    by decide⟩
  rw [ExtendedRat.cmp_ofRat, cmp_eq_gt_iff]
  norm_num

end Value

end KeyedSeries

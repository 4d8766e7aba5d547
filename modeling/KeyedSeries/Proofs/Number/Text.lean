import KeyedSeries.Proofs.Json.Parts
import KeyedSeries.Proofs.Number.Shortest
import KeyedSeries.Value.Stored

/-!
# The text of a stored number is a numeral

However the digits of a number are laid out, with a point among them, with zeros
before or behind them, or with an exponent part, the text is a numeral, and **it
stands for the decimal that was laid out** (`KeyedSeries.NumberStyle.exists_numeral`).
It always has a fraction or an exponent part, and so it is never taken for an
integer.
-/

namespace KeyedSeries

open Numeral

/-! ### Digits -/

/-- Digits without a zero in front. -/
structure IsDigits (ds : List Char) : Prop where
  /-- They are digits. -/
  digit : ∀ b ∈ ds.map Bytes.ascii, isDigit b = true
  /-- The first one is no zero. -/
  head : ∃ b rest, ds.map Bytes.ascii = b :: rest ∧ b ≠ 0x30

theorem IsDigits.length_pos {ds : List Char} (h : IsDigits ds) : 0 < ds.length := by
  obtain ⟨b, rest, hcons, -⟩ := h.head
  have := congrArg List.length hcons
  simp only [List.length_map, List.length_cons] at this
  omega

theorem isDigits_digitsOf {n : Nat} (h : 0 < n) : IsDigits (digitsOf n) where
  digit := fun _ => isDigit_of_mem_decimal
  head := by
    obtain ⟨b, rest, hcons, hzero⟩ := (decimal_spec n).2.2
    exact ⟨b, rest, hcons, fun hb => by simp [hzero hb] at h⟩

theorem digitsOf_of_lt {n : Nat} (h : n < 10) : digitsOf n = [n.digitChar] :=
  Nat.toDigits_of_lt_base h

theorem digitsOf_of_le {n : Nat} (h : 10 ≤ n) :
    digitsOf n = digitsOf (n / 10) ++ [(n % 10).digitChar] :=
  Nat.toDigits_of_base_le (by decide) h

theorem dropTrailingZeros_append_zero (ds : List Char) :
    dropTrailingZeros (ds ++ ['0']) = dropTrailingZeros ds := by
  simp [dropTrailingZeros]

theorem dropTrailingZeros_append_of_ne (ds : List Char) {c : Char} (hc : c ≠ '0') :
    dropTrailingZeros (ds ++ [c]) = ds ++ [c] := by
  simp [dropTrailingZeros, hc]

theorem digitChar_ne_zero : ∀ n < 10, n ≠ 0 → n.digitChar ≠ '0' := by decide

/-- Without the zeros at the end, the digits are those of a number that ten does not
divide. -/
theorem dropTrailingZeros_digitsOf {n : Nat} (hn : 0 < n) :
    ∃ core k, ¬ 10 ∣ core ∧ n = core * 10 ^ k ∧
      digitsOf n = digitsOf core ++ List.replicate k '0' ∧
        dropTrailingZeros (digitsOf n) = digitsOf core := by
  induction n using Nat.strongRecOn with
  | ind n ih =>
    by_cases hten : 10 ∣ n
    · obtain ⟨q, rfl⟩ := hten
      have hsplit : digitsOf (10 * q) = digitsOf q ++ ['0'] := by
        rw [digitsOf_of_le (by omega), Nat.mul_div_cancel_left q (by decide), Nat.mul_mod_right]
        rfl
      obtain ⟨core, k, hcore, hq, hdigits, hdrop⟩ := ih q (by omega) (by omega)
      refine ⟨core, k + 1, hcore, ?_, ?_, ?_⟩
      · rw [hq, pow_succ]
        ring
      · rw [hsplit, hdigits, List.append_assoc, ← List.replicate_succ']
      · rw [hsplit, dropTrailingZeros_append_zero, hdrop]
    · refine ⟨n, 0, hten, by simp, by simp, ?_⟩
      have hlast : (n % 10).digitChar ≠ '0' :=
        digitChar_ne_zero _ (Nat.mod_lt n (by decide)) fun h => hten (Nat.dvd_of_mod_eq_zero h)
      rcases Nat.lt_or_ge n 10 with hlt | hge
      · rw [Nat.mod_eq_of_lt hlt] at hlast
        rw [digitsOf_of_lt hlt]
        exact dropTrailingZeros_append_of_ne [] hlast
      · rw [digitsOf_of_le hge]
        exact dropTrailingZeros_append_of_ne _ hlast

@[simp] theorem ascii_zero : Bytes.ascii '0' = 0x30 := rfl

@[simp] theorem ascii_point : Bytes.ascii '.' = 0x2e := rfl

@[simp] theorem ascii_exponent : Bytes.ascii 'e' = 0x65 := rfl

theorem isDigit_of_mem_zeros {k : Nat} {b : UInt8} (h : b ∈ List.replicate k 0x30) :
    isDigit b = true := by
  rw [List.eq_of_mem_replicate h]
  decide

/-! ### Layouts -/

/-- A text is, apart from the sign, what is written of a numeral that is no integer;
the numeral has a value, and its digits make a number of few digits. -/
structure Numeral.Shows (n : Numeral) (text : List Char) (v : ℚ) (digits : Nat) : Prop where
  /-- It is a numeral. -/
  isProper : n.IsProper
  /-- It has a fraction or an exponent part. -/
  notWhole : n.isWhole = false
  /-- It is written so. -/
  bytes : n.bytes = (if n.negative then [0x2d] else []) ++ text.map Bytes.ascii
  /-- It has the value. -/
  value : n.value = v
  /-- Its digits are few. -/
  few : natOf (n.whole ++ n.fraction) < 10 ^ digits
  /-- The last one is no zero, or the only one behind the point. -/
  last : ¬ 10 ∣ natOf (n.whole ++ n.fraction) ∨ n.fraction = [0x30] ∧ n.exponent = none

section Layout

variable {ds : List Char} {e : Int}

theorem IsDigits.natOf_lt (h : IsDigits ds) : natOf (ds.map Bytes.ascii) < 10 ^ ds.length := by
  have hlt := Numeral.natOf_lt h.digit
  rwa [List.length_map] at hlt

/-- Zeros before the digits. -/
theorem shows_small (negative : Bool) (h : IsDigits ds) (hlast : ¬ 10 ∣ natOf (ds.map Bytes.ascii))
    (he : e < 0) :
    Shows ⟨negative, [0x30], List.replicate (-e - 1).toNat 0x30 ++ ds.map Bytes.ascii, none⟩
      (plainText true ds e) (natOf (ds.map Bytes.ascii) * 10 ^ (e + 1 - ds.length))
        ds.length := by
  have hnat : natOf ([0x30] ++ (List.replicate (-e - 1).toNat 0x30 ++ ds.map Bytes.ascii)) =
      natOf (ds.map Bytes.ascii) := by
    have hone := natOf_zeros_append 1 (List.replicate (-e - 1).toNat 0x30 ++ ds.map Bytes.ascii)
    exact hone.trans (natOf_zeros_append ..)
  have hne : List.replicate (-e - 1).toNat 0x30 ++ ds.map Bytes.ascii ≠ [] := by
    simpa using fun _ => List.ne_nil_of_length_pos h.length_pos
  refine ⟨⟨fun b hb => isDigit_of_mem_zeros (k := 1) hb, .inl rfl, fun b hb => ?_⟩, ?_, ?_, ?_, ?_,
    .inl (hnat ▸ hlast)⟩
  · rcases List.mem_append.mp hb with hb | hb
    · exact isDigit_of_mem_zeros hb
    · exact h.digit b hb
  · simpa [isWhole] using hne
  · obtain ⟨d, rest, hcons⟩ := List.exists_cons_of_ne_nil hne
    rw [plainText, if_pos he]
    simp only [Numeral.bytes, hcons, fractionBytes, exponentBytes]
    rw [← hcons]
    simp
  · rw [Numeral.value, hnat]
    congr 2
    simp
    omega
  · rw [hnat]
    exact h.natOf_lt

/-- Zeros between the digits and the point. -/
theorem shows_whole (negative : Bool) (h : IsDigits ds) (he : 0 ≤ e)
    (hlength : ds.length ≤ e.toNat + 1) :
    Shows ⟨negative, ds.map Bytes.ascii ++ List.replicate (e.toNat + 1 - ds.length) 0x30, [0x30],
        none⟩
      (plainText true ds e) (natOf (ds.map Bytes.ascii) * 10 ^ (e + 1 - ds.length))
        (e.toNat + 2) := by
  obtain ⟨b, rest, hcons, hb⟩ := h.head
  have hwhole : ∀ b ∈ ds.map Bytes.ascii ++ List.replicate (e.toNat + 1 - ds.length) 0x30,
      isDigit b = true := by
    intro b hb
    rcases List.mem_append.mp hb with hb | hb
    · exact h.digit b hb
    · exact isDigit_of_mem_zeros hb
  have hzero : ∀ b ∈ [(0x30 : UInt8)], isDigit b = true := fun b => isDigit_of_mem_zeros (k := 1)
  refine ⟨⟨hwhole, .inr ⟨b, _, by rw [hcons]; rfl, hb⟩, hzero⟩, rfl, ?_, ?_, ?_,
    .inr ⟨rfl, rfl⟩⟩
  · have htake : ds.take (e.toNat + 1) = ds := List.take_of_length_le hlength
    have hdrop : ds.drop (e.toNat + 1) = [] := List.drop_of_length_le hlength
    rw [plainText, if_neg (not_lt.mpr he)]
    simp only [htake, hdrop, if_true, Numeral.bytes, fractionBytes, exponentBytes]
    simp
  · have hexponent : (e + 1 - ds.length : ℤ) = ((e.toNat + 1 - ds.length : ℕ) : ℤ) := by omega
    rw [Numeral.value, natOf_append, natOf_append, natOf_zeros, hexponent, zpow_natCast]
    simp [natOf]
  · have hlt := natOf_lt fun b hb => (List.mem_append.mp hb).elim (hwhole b) (hzero b)
    have hcount : e.toNat + 2 = ds.length + (e.toNat + 1 - ds.length + 1) := by omega
    rw [hcount]
    simpa using hlt

/-- Digits that are split behind one of them are such as a numeral has before and behind its
point. -/
theorem IsDigits.isProper_split (h : IsDigits ds) (negative : Bool) (k : Nat)
    (exponent : Option Int) :
    IsProper ⟨negative, (ds.take (k + 1)).map Bytes.ascii, (ds.drop (k + 1)).map Bytes.ascii,
      exponent⟩ := by
  obtain ⟨b, rest, hcons, hb⟩ := h.head
  refine ⟨fun b hb => ?_, .inr ⟨b, rest.take k, ?_, hb⟩, fun b hb => ?_⟩
  · obtain ⟨c, hc, rfl⟩ := List.mem_map.mp hb
    exact h.digit _ (List.mem_map_of_mem (List.mem_of_mem_take hc))
  · rw [List.map_take, hcons, List.take_succ_cons]
  · obtain ⟨c, hc, rfl⟩ := List.mem_map.mp hb
    exact h.digit _ (List.mem_map_of_mem (List.mem_of_mem_drop hc))

theorem natOf_split (k : Nat) :
    natOf ((ds.take k).map Bytes.ascii ++ (ds.drop k).map Bytes.ascii) =
      natOf (ds.map Bytes.ascii) := by
  rw [← List.map_append, List.take_append_drop]

/-- A point among the digits. -/
theorem shows_pointed (negative : Bool) (h : IsDigits ds)
    (hlast : ¬ 10 ∣ natOf (ds.map Bytes.ascii)) (he : 0 ≤ e) (hlength : e.toNat + 1 < ds.length) :
    Shows ⟨negative, (ds.take (e.toNat + 1)).map Bytes.ascii,
        (ds.drop (e.toNat + 1)).map Bytes.ascii, none⟩
      (plainText true ds e) (natOf (ds.map Bytes.ascii) * 10 ^ (e + 1 - ds.length))
        ds.length := by
  obtain ⟨c, tail, hdrop⟩ : ∃ c tail, ds.drop (e.toNat + 1) = c :: tail := by
    refine List.exists_cons_of_ne_nil fun hnil => ?_
    have := List.drop_eq_nil_iff.mp hnil
    omega
  refine ⟨h.isProper_split _ _ _, ?_, ?_, ?_, ?_, .inl ?_⟩
  · simp [isWhole, hdrop]
  · have hpad : e.toNat + 1 - (ds.take (e.toNat + 1)).length = 0 := by
      rw [List.length_take]
      omega
    rw [plainText, if_neg (not_lt.mpr he)]
    simp only [hpad, hdrop, List.replicate_zero, List.append_nil, List.map_cons, Numeral.bytes,
      fractionBytes, exponentBytes]
    simp
  · rw [Numeral.value, natOf_split]
    simp only [Option.getD_none, List.length_map, List.length_drop]
    congr 2
    omega
  · rw [natOf_split]
    exact h.natOf_lt
  · rwa [natOf_split]

/-- One digit before the point, and an exponent part. -/
theorem shows_scientific (negative : Bool) (h : IsDigits ds)
    (hlast : ¬ 10 ∣ natOf (ds.map Bytes.ascii)) (e : Int) :
    Shows ⟨negative, (ds.take 1).map Bytes.ascii, (ds.drop 1).map Bytes.ascii, some e⟩
      (exponentText ds e) (natOf (ds.map Bytes.ascii) * 10 ^ (e + 1 - ds.length))
        ds.length := by
  refine ⟨h.isProper_split _ 0 _, ?_, ?_, ?_, ?_, .inl ?_⟩
  · simp [isWhole]
  · have hsign : Bytes.ascii (if e < 0 then '-' else '+') = if e < 0 then 0x2d else 0x2b := by
      split <;> decide
    rw [exponentText]
    cases hdrop : ds.drop 1 with
    | nil => simp [Numeral.bytes, fractionBytes, exponentBytes, decimal, hsign]
    | cons c rest => simp [Numeral.bytes, fractionBytes, exponentBytes, decimal, hsign]
  · have hlength := h.length_pos
    rw [Numeral.value, natOf_split]
    simp only [Option.getD_some, List.length_map, List.length_drop]
    congr 2
    omega
  · rw [natOf_split]
    exact h.natOf_lt
  · rwa [natOf_split]

/-- Digits laid out without exponent part. -/
theorem exists_shows_plain (negative : Bool) (h : IsDigits ds)
    (hlast : ¬ 10 ∣ natOf (ds.map Bytes.ascii)) {k : Nat} (hk : ds.length ≤ k)
    (he : (e + 2).toNat ≤ k) : ∃ n : Numeral, n.negative = negative ∧
      n.Shows (plainText true ds e) (natOf (ds.map Bytes.ascii) * 10 ^ (e + 1 - ds.length)) k := by
  have hwiden : ∀ {n : Numeral} {text v j}, n.Shows text v j → j ≤ k → n.Shows text v k :=
    fun hn hj => ⟨hn.isProper, hn.notWhole, hn.bytes, hn.value,
      lt_of_lt_of_le hn.few (Nat.pow_le_pow_right (by decide) hj), hn.last⟩
  by_cases hsmall : e < 0
  · exact ⟨_, rfl, hwiden (shows_small negative h hlast hsmall) hk⟩
  · by_cases hlength : ds.length ≤ e.toNat + 1
    · exact ⟨_, rfl, hwiden (shows_whole negative h (by omega) hlength) (by omega)⟩
    · exact ⟨_, rfl, hwiden (shows_pointed negative h hlast (by omega) (by omega)) hk⟩

end Layout

/-! ### Decimals -/

namespace NumberStyle

/-- **The text of a stored decimal is a numeral** of its value. -/
theorem exists_numeral (f : BinaryFormat) (negative : Bool) {d : Decimal} (hpos : 0 < d.digits)
    (hfew : d.digits < 10 ^ 18) : ∃ n : Numeral, n.negative = negative ∧
      n.Shows ((stored f).decimalText d) d.value 18 := by
  obtain ⟨core, k, hcore, hdigits, hsplit, hdrop⟩ := dropTrailingZeros_digitsOf hpos
  have hshown : IsDigits (digitsOf core) :=
    isDigits_digitsOf (Nat.pos_of_ne_zero fun h => by simp [h] at hcore)
  have hlast : ¬ 10 ∣ natOf ((digitsOf core).map Bytes.ascii) := by
    rwa [← decimal, natOf_decimal]
  have hlength : (digitsOf d.digits).length = (digitsOf core).length + k := by
    rw [hsplit]
    simp
  have hcount := hshown.length_pos
  have hmost : (digitsOf d.digits).length ≤ 18 :=
    (Nat.length_toDigits_le_iff (by decide) (by decide)).mpr hfew
  -- The zeros that are not shown count for the exponent.
  have hvalue : (natOf ((digitsOf core).map Bytes.ascii) *
      10 ^ (d.exponent + ((digitsOf d.digits).length - 1 : ℕ) + 1 - (digitsOf core).length) : ℚ) =
        d.value := by
    have hexponent : d.exponent + ((digitsOf d.digits).length - 1 : ℕ) + 1 -
        (digitsOf core).length = k + d.exponent := by omega
    have hdigits' : (d.digits : ℚ) = core * 10 ^ k := by exact_mod_cast hdigits
    rw [hexponent, ← decimal, natOf_decimal, Decimal.value, hdigits', zpow_add₀ (by norm_num),
      zpow_natCast]
    ring
  rw [decimalText, hdrop, ← hvalue]
  split
  · next hplain =>
    refine exists_shows_plain negative hshown hlast (by omega) ?_
    -- Without exponent part the first digit is at most the sixteenth one before the point.
    simp only [isPlain, stored, Bool.and_eq_true, decide_eq_true_eq] at hplain
    split at hplain <;> omega
  · have h := shows_scientific negative hshown hlast
      (d.exponent + ((digitsOf d.digits).length - 1 : ℕ))
    exact ⟨_, rfl, h.isProper, h.notWhole, h.bytes, h.value,
      lt_of_lt_of_le h.few (Nat.pow_le_pow_right (by decide) (by omega)), h.last⟩

end NumberStyle

end KeyedSeries

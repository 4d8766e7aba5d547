import KeyedSeries.Regex.Search
import Mathlib.Data.Finset.Card
import Mathlib.Data.Finset.Range

/-!
# The search finds what matches

The search goes forward from a list of places and keeps the places that it reaches. **A place
is reached just if the expression matches from one of the given places to it**
(`KeyedSeries.Regex.mem_ends_iff`), so that a text is found to match just if some part of it
does (`KeyedSeries.Regex.isMatch_iff`). The one thing that is asked of the expression is that no
repetition is bounded by fewer copies than it needs (`KeyedSeries.Regex.InOrder`); no pattern
that can be read has such a repetition.

A repetition is followed from newly reached places only. What is reached in some number of steps
is told by an invariant (`KeyedSeries.Regex.mem_spread_iff`): apart from the newest places, every
step from a place that was reached leads to another one. Without a bound on the copies the search
stops when all places of the text have turned up, at the latest, and then no step leads to a
further place (`KeyedSeries.Regex.mem_spread_of_step`).
-/

namespace KeyedSeries.Regex

/-! ### Steps -/

section Steps

variable {R : Nat → Nat → Prop} {m n i j k : Nat}

theorem steps_succ_iff : Steps R (n + 1) i j ↔ ∃ k, R i k ∧ Steps R n k j := Iff.rfl

/-- Steps may be taken in two parts. -/
theorem steps_add_iff : Steps R (m + n) i j ↔ ∃ k, Steps R m i k ∧ Steps R n k j := by
  induction m generalizing i with
  | zero => simp [Steps]
  | succ m ih =>
    rw [Nat.succ_add, steps_succ_iff]
    constructor
    · rintro ⟨a, ha, hsteps⟩
      obtain ⟨k, hk, hrest⟩ := ih.mp hsteps
      exact ⟨k, ⟨a, ha, hk⟩, hrest⟩
    · rintro ⟨k, ⟨a, ha, hk⟩, hrest⟩
      exact ⟨a, ha, ih.mpr ⟨k, hk, hrest⟩⟩

/-- Steps from a place stay in a list that every step stays in. -/
theorem mem_of_steps {places : List Nat} (h : ∀ i ∈ places, ∀ j, R i j → j ∈ places)
    (hi : i ∈ places) (hsteps : Steps R n i j) : j ∈ places := by
  induction n generalizing i with
  | zero => exact hsteps ▸ hi
  | succ n ih =>
    obtain ⟨k, hk, hrest⟩ := hsteps
    exact ih (h i hi k hk) hrest

end Steps

/-! ### The search by steps -/

/-- A function on lists of places takes the steps of a relation, as long as the places are not
behind a last one; and no step leads behind it. -/
structure Takes (last : Nat) (f : List Nat → List Nat) (R : Nat → Nat → Prop) : Prop where
  /-- The places it leads to are those that a step leads to. -/
  mem_iff : ∀ {places : List Nat}, (∀ i ∈ places, i ≤ last) →
    ∀ j, j ∈ f places ↔ ∃ i ∈ places, R i j
  /-- No step leads behind the last place. -/
  le_last : ∀ {i j : Nat}, i ≤ last → R i j → j ≤ last

section Search

variable {last : Nat} {f : List Nat → List Nat} {R : Nat → Nat → Prop} {n i j : Nat}

theorem Takes.le_last_of_steps (hf : Takes last f R) (hi : i ≤ last) (h : Steps R n i j) :
    j ≤ last := by
  induction n generalizing i with
  | zero => exact h ▸ hi
  | succ n ih =>
    obtain ⟨k, hk, hrest⟩ := h
    exact ih (hf.le_last hi hk) hrest

/-- A step taken some number of times leads where so many steps lead. -/
theorem mem_iterate_iff (hf : Takes last f R) {places : List Nat} (h : ∀ i ∈ places, i ≤ last) :
    j ∈ iterate f n places ↔ ∃ i ∈ places, Steps R n i j := by
  induction n generalizing places with
  | zero => simp [iterate, Steps]
  | succ n ih =>
    have hnext : ∀ k ∈ f places, k ≤ last := by
      intro k hk
      obtain ⟨i, hi, hik⟩ := (hf.mem_iff h k).mp hk
      exact hf.le_last (h i hi) hik
    rw [iterate, ih hnext]
    constructor
    · rintro ⟨k, hk, hrest⟩
      obtain ⟨i, hi, hik⟩ := (hf.mem_iff h k).mp hk
      exact ⟨i, hi, k, hik, hrest⟩
    · rintro ⟨i, hi, k, hik, hrest⟩
      exact ⟨k, (hf.mem_iff h k).mpr ⟨i, hi, hik⟩, hrest⟩

/-- What the search keeps of the places that it has reached: they are not behind the last place,
the newest are among them, and a step from any other one leads to one of them. -/
structure Spreads (last : Nat) (R : Nat → Nat → Prop) (newest reached : List Nat) : Prop where
  /-- No place is behind the last one. -/
  le_last : ∀ i ∈ reached, i ≤ last
  /-- The newest places were reached. -/
  mem_reached : ∀ i ∈ newest, i ∈ reached
  /-- Steps from the others were taken. -/
  step : ∀ i ∈ reached, i ∉ newest → ∀ j, R i j → j ∈ reached

/-- The places that steps from the newest ones lead to for the first time. -/
def fresh (f : List Nat → List Nat) (newest reached : List Nat) : List Nat :=
  (f newest).filter fun j => !reached.contains j

variable {newest reached : List Nat}

theorem spread_of_fresh_eq_nil (h : fresh f newest reached = []) (steps : Nat) :
    spread f steps newest reached = reached := by
  cases steps with
  | zero => rfl
  | succ steps =>
    rw [fresh] at h
    rw [spread, h]

theorem spread_succ (h : fresh f newest reached ≠ []) (steps : Nat) :
    spread f (steps + 1) newest reached =
      spread f steps (fresh f newest reached) (reached ++ fresh f newest reached) := by
  rw [fresh] at h
  rw [spread]
  split
  · next hnil => exact absurd hnil h
  · rfl

namespace Spreads

theorem mem_fresh_iff (h : Spreads last R newest reached) (hf : Takes last f R) :
    j ∈ fresh f newest reached ↔ (∃ i ∈ newest, R i j) ∧ j ∉ reached := by
  have hnewest : ∀ i ∈ newest, i ≤ last := fun i hi => h.le_last i (h.mem_reached i hi)
  rw [fresh, List.mem_filter, hf.mem_iff hnewest]
  simp

/-- A step from any place leads to one that was reached, or to a fresh one. -/
theorem mem_append_of_step (h : Spreads last R newest reached) (hf : Takes last f R)
    (hi : i ∈ reached) (hij : R i j) : j ∈ reached ++ fresh f newest reached := by
  by_cases hj : j ∈ reached
  · exact List.mem_append_left _ hj
  · by_cases hnew : i ∈ newest
    · exact List.mem_append_right _ ((h.mem_fresh_iff hf).mpr ⟨⟨i, hnew, hij⟩, hj⟩)
    · exact absurd (h.step i hi hnew j hij) hj

/-- The search goes on from the fresh places. -/
theorem next (h : Spreads last R newest reached) (hf : Takes last f R) :
    Spreads last R (fresh f newest reached) (reached ++ fresh f newest reached) where
  le_last i hi := by
    rcases List.mem_append.mp hi with hi | hi
    · exact h.le_last i hi
    · obtain ⟨⟨k, hk, hki⟩, -⟩ := (h.mem_fresh_iff hf).mp hi
      exact hf.le_last (h.le_last k (h.mem_reached k hk)) hki
  mem_reached i hi := List.mem_append_right _ hi
  step i hi hold j hij := by
    rcases List.mem_append.mp hi with hi | hi
    · exact h.mem_append_of_step hf hi hij
    · exact absurd hi hold

/-- Without a fresh place no step leads to a further one. -/
theorem mem_of_step (h : Spreads last R newest reached) (hf : Takes last f R)
    (hnil : fresh f newest reached = []) : ∀ i ∈ reached, ∀ j, R i j → j ∈ reached := by
  intro i hi j hij
  have hj := h.mem_append_of_step hf hi hij
  rwa [hnil, List.append_nil] at hj

/-- A search starts from given places. -/
theorem start {places : List Nat} (h : ∀ i ∈ places, i ≤ last) : Spreads last R places places where
  le_last := h
  mem_reached _ hi := hi
  step _ hi hnew := absurd hi hnew

end Spreads

/-- **What the search reaches** are the places that so many steps lead to, or fewer. -/
theorem mem_spread_iff (hf : Takes last f R) (h : Spreads last R newest reached) {steps : Nat} :
    j ∈ spread f steps newest reached ↔ ∃ n ≤ steps, ∃ i ∈ reached, Steps R n i j := by
  induction steps generalizing newest reached with
  | zero =>
    rw [spread]
    constructor
    · exact fun hj => ⟨0, Nat.le_refl 0, j, hj, rfl⟩
    · rintro ⟨n, hn, i, hi, hsteps⟩
      obtain rfl := Nat.le_zero.mp hn
      exact hsteps ▸ hi
  | succ steps ih =>
    by_cases hnil : fresh f newest reached = []
    · rw [spread_of_fresh_eq_nil hnil]
      constructor
      · exact fun hj => ⟨0, Nat.zero_le _, j, hj, rfl⟩
      · rintro ⟨n, -, i, hi, hsteps⟩
        exact mem_of_steps (h.mem_of_step hf hnil) hi hsteps
    · rw [spread_succ hnil, ih (h.next hf)]
      constructor
      · rintro ⟨n, hn, i, hi, hsteps⟩
        rcases List.mem_append.mp hi with hi | hi
        · exact ⟨n, Nat.le_succ_of_le hn, i, hi, hsteps⟩
        · -- A fresh place is one step away from a newest one.
          obtain ⟨⟨k, hk, hki⟩, -⟩ := (h.mem_fresh_iff hf).mp hi
          exact ⟨n + 1, Nat.succ_le_succ hn, k, h.mem_reached k hk, i, hki, hsteps⟩
      · rintro ⟨n, hn, i, hi, hsteps⟩
        cases n with
        | zero => exact ⟨0, Nat.zero_le _, i, List.mem_append_left _ hi, hsteps⟩
        | succ n =>
          obtain ⟨k, hik, hrest⟩ := hsteps
          exact ⟨n, Nat.le_of_succ_le_succ hn, k, h.mem_append_of_step hf hi hik, hrest⟩

/-- The places up to the last one that were not reached. -/
def unreached (last : Nat) (reached : List Nat) : Finset Nat :=
  Finset.range (last + 1) \ reached.toFinset

/-- A fresh place makes them fewer. -/
theorem card_unreached_lt (hf : Takes last f R) (h : Spreads last R newest reached)
    (hnil : fresh f newest reached ≠ []) :
    (unreached last (reached ++ fresh f newest reached)).card < (unreached last reached).card := by
  obtain ⟨k, hk⟩ := List.exists_mem_of_ne_nil _ hnil
  have hlast := (h.next hf).le_last k (List.mem_append_right _ hk)
  have hout := ((h.mem_fresh_iff hf).mp hk).2
  refine Finset.card_lt_card (Finset.ssubset_iff_of_subset ?_ |>.mpr ⟨k, ?_, ?_⟩)
  · intro i hi
    simp only [unreached, Finset.mem_sdiff, List.mem_toFinset, List.mem_append, not_or] at hi ⊢
    exact ⟨hi.1, hi.2.1⟩
  · simp only [unreached, Finset.mem_sdiff, Finset.mem_range, List.mem_toFinset]
    exact ⟨Nat.lt_succ_of_le hlast, hout⟩
  · simp [unreached, hk]

/-- **With a step for every place that was not reached, the search comes to its end**: no step
leads to a further place. -/
theorem mem_spread_of_step (hf : Takes last f R) (h : Spreads last R newest reached) {steps : Nat}
    (hsteps : (unreached last reached).card ≤ steps) :
    ∀ i ∈ spread f steps newest reached, ∀ j, R i j → j ∈ spread f steps newest reached := by
  induction steps generalizing newest reached with
  | zero =>
    have hempty := Finset.card_eq_zero.mp (Nat.le_zero.mp hsteps)
    intro i hi j hij
    rw [spread] at hi ⊢
    by_contra hj
    have hmem : j ∈ unreached last reached := by
      rw [unreached, Finset.mem_sdiff, Finset.mem_range, List.mem_toFinset]
      exact ⟨Nat.lt_succ_of_le (hf.le_last (h.le_last i hi) hij), hj⟩
    rw [hempty] at hmem
    exact absurd hmem (Finset.notMem_empty j)
  | succ steps ih =>
    by_cases hnil : fresh f newest reached = []
    · rw [spread_of_fresh_eq_nil hnil]
      exact h.mem_of_step hf hnil
    · have hlt := card_unreached_lt hf h hnil
      rw [spread_succ hnil]
      exact ih (h.next hf) (by omega)

/-- With more steps than there are places the search reaches whatever steps lead to. -/
theorem mem_spread_all_iff (hf : Takes last f R) {places : List Nat} (h : ∀ i ∈ places, i ≤ last) :
    j ∈ spread f (last + 1) places places ↔ ∃ n, ∃ i ∈ places, Steps R n i j := by
  have hstart : Spreads last R places places := .start h
  constructor
  · intro hj
    obtain ⟨n, -, hsteps⟩ := (mem_spread_iff hf hstart).mp hj
    exact ⟨n, hsteps⟩
  · rintro ⟨n, i, hi, hsteps⟩
    have hcard : (unreached last places).card ≤ last + 1 :=
      (Finset.card_le_card Finset.sdiff_subset).trans_eq (Finset.card_range _)
    have hmem : i ∈ spread f (last + 1) places places :=
      (mem_spread_iff hf hstart).mpr ⟨0, Nat.zero_le _, i, hi, rfl⟩
    exact mem_of_steps (mem_spread_of_step hf hstart hcard) hmem hsteps

end Search

/-! ### Expressions -/

/-- No repetition is bounded by fewer copies than it needs. -/
def InOrder : Regex → Prop
  | empty | chars _ | look _ => True
  | seq a b | alt a b => a.InOrder ∧ b.InOrder
  | times r least most => r.InOrder ∧ ∀ m, most = some m → least ≤ m

section Expressions

variable {text : Array Char} {r : Regex} {i j : Nat}

/-- No match ends behind the text. -/
theorem Matches.le_size (hi : i ≤ text.size) (h : r.Matches text i j) : j ≤ text.size := by
  induction r generalizing i j with
  | empty => exact h ▸ hi
  | chars s =>
    obtain ⟨rfl, c, hc, -⟩ := h
    exact (Array.getElem?_eq_some_iff.mp hc).1
  | look l => exact h.1 ▸ hi
  | seq a b iha ihb =>
    obtain ⟨k, ha, hb⟩ := h
    exact ihb (iha hi ha) hb
  | alt a b iha ihb =>
    rcases h with h | h
    · exact iha hi h
    · exact ihb hi h
  | times r least most ih =>
    obtain ⟨n, -, -, hsteps⟩ := h
    induction n generalizing i with
    | zero => exact hsteps ▸ hi
    | succ n ihn =>
      obtain ⟨k, hk, hrest⟩ := hsteps
      exact ihn (ih hi hk) hrest

/-- What either alternative leads to is listed. -/
theorem mem_ends_alt_iff {a b : Regex} {places : List Nat} :
    j ∈ (alt a b).ends text places ↔ j ∈ a.ends text places ∨ j ∈ b.ends text places := by
  have halt : (alt a b).ends text places =
      a.ends text places ++ (b.ends text places).filter fun j => !(a.ends text places).contains j :=
    rfl
  rw [halt, List.mem_append, List.mem_filter]
  by_cases hj : j ∈ a.ends text places
  · simp [hj]
  · simp [hj]

/-- Copies of an expression are followed by the search. -/
theorem mem_ends_times_iff {least : Nat} {most : Option Nat}
    (hr : Takes text.size (r.ends text) (r.Matches text)) (hmost : ∀ m, most = some m → least ≤ m)
    {places : List Nat} (h : ∀ i ∈ places, i ≤ text.size) :
    j ∈ (times r least most).ends text places ↔
      ∃ i ∈ places, (times r least most).Matches text i j := by
  have hstart : ∀ k ∈ iterate (r.ends text) least places, k ≤ text.size := by
    intro k hk
    obtain ⟨i, hi, hsteps⟩ := (mem_iterate_iff hr h).mp hk
    exact hr.le_last_of_steps (h i hi) hsteps
  unfold ends
  cases most with
  | none =>
    refine (mem_spread_all_iff hr hstart).trans ?_
    constructor
    · rintro ⟨n, k, hk, hrest⟩
      obtain ⟨i, hi, hsteps⟩ := (mem_iterate_iff hr h).mp hk
      exact ⟨i, hi, least + n, Nat.le_add_right _ _, nofun, steps_add_iff.mpr ⟨k, hsteps, hrest⟩⟩
    · rintro ⟨i, hi, n, hn, -, hsteps⟩
      obtain ⟨more, rfl⟩ := Nat.exists_eq_add_of_le hn
      obtain ⟨k, hfirst, hrest⟩ := steps_add_iff.mp hsteps
      exact ⟨more, k, (mem_iterate_iff hr h).mpr ⟨i, hi, hfirst⟩, hrest⟩
  | some m =>
    have hle := hmost m rfl
    change j ∈ spread (r.ends text) (m - least) _ _ ↔ _
    rw [mem_spread_iff hr (.start hstart)]
    constructor
    · rintro ⟨n, hn, k, hk, hrest⟩
      obtain ⟨i, hi, hsteps⟩ := (mem_iterate_iff hr h).mp hk
      refine ⟨i, hi, least + n, Nat.le_add_right _ _, ?_, steps_add_iff.mpr ⟨k, hsteps, hrest⟩⟩
      rintro m' ⟨⟩
      omega
    · rintro ⟨i, hi, n, hn, hbound, hsteps⟩
      obtain ⟨more, rfl⟩ := Nat.exists_eq_add_of_le hn
      obtain ⟨k, hfirst, hrest⟩ := steps_add_iff.mp hsteps
      have hm := hbound m rfl
      exact ⟨more, by omega, k, (mem_iterate_iff hr h).mpr ⟨i, hi, hfirst⟩, hrest⟩

/-- **The search takes the steps of the relation**: it reaches the places that matches lead to. -/
theorem takes_ends (hr : r.InOrder) : Takes text.size (r.ends text) (r.Matches text) := by
  refine ⟨fun {places} h j => ?_, fun hi h => h.le_size hi⟩
  induction r generalizing places j with
  | empty => simp [ends, Matches]
  | chars s =>
    rw [ends, List.mem_filterMap]
    refine exists_congr fun i => and_congr_right fun _ => ?_
    cases hc : text[i]? with
    | none => simp [Matches, hc]
    | some c =>
      by_cases hs : s.contains c = true
      · simpa [Matches, hc, hs] using eq_comm
      · simp [Matches, hc, hs]
  | look l =>
    rw [ends, List.mem_filter]
    constructor
    · rintro ⟨hj, hholds⟩
      exact ⟨j, hj, rfl, hholds⟩
    · rintro ⟨i, hi, rfl, hholds⟩
      exact ⟨hi, hholds⟩
  | seq a b iha ihb =>
    have hmid : ∀ k ∈ a.ends text places, k ≤ text.size := by
      intro k hk
      obtain ⟨i, hi, hik⟩ := (iha hr.1 h k).mp hk
      exact hik.le_size (h i hi)
    rw [ends, ihb hr.2 hmid]
    constructor
    · rintro ⟨k, hk, hkj⟩
      obtain ⟨i, hi, hik⟩ := (iha hr.1 h k).mp hk
      exact ⟨i, hi, k, hik, hkj⟩
    · rintro ⟨i, hi, k, hik, hkj⟩
      exact ⟨k, (iha hr.1 h k).mpr ⟨i, hi, hik⟩, hkj⟩
  | alt a b iha ihb =>
    rw [mem_ends_alt_iff, iha hr.1 h, ihb hr.2 h]
    constructor
    · rintro (⟨i, hi, hij⟩ | ⟨i, hi, hij⟩)
      · exact ⟨i, hi, .inl hij⟩
      · exact ⟨i, hi, .inr hij⟩
    · rintro ⟨i, hi, hij | hij⟩
      · exact .inl ⟨i, hi, hij⟩
      · exact .inr ⟨i, hi, hij⟩
  | times r least most ih =>
    have hsteps : Takes text.size (r.ends text) (r.Matches text) :=
      ⟨fun h j => ih hr.1 h j, fun hi h => h.le_size hi⟩
    exact mem_ends_times_iff hsteps hr.2 h

/-- **A place is reached just if a match leads to it** from one of the places. -/
theorem mem_ends_iff (hr : r.InOrder) {places : List Nat} (h : ∀ i ∈ places, i ≤ text.size) :
    j ∈ r.ends text places ↔ ∃ i ∈ places, r.Matches text i j := (takes_ends hr).mem_iff h j

end Expressions

/-- **A text is found to match** just if a part of it does. -/
theorem isMatch_iff {r : Regex} (hr : r.InOrder) (text : String) :
    r.isMatch text = true ↔
      ∃ i ≤ text.toList.length, ∃ j, r.Matches text.toList.toArray i j := by
  have hplaces : ∀ i ∈ List.range (text.toList.toArray.size + 1), i ≤ text.toList.toArray.size :=
    fun i hi => Nat.le_of_lt_succ (List.mem_range.mp hi)
  rw [isMatch, Bool.not_eq_true', List.isEmpty_eq_false_iff_exists_mem]
  constructor
  · rintro ⟨j, hj⟩
    obtain ⟨i, hi, hij⟩ := (mem_ends_iff hr hplaces).mp hj
    exact ⟨i, hplaces i hi, j, hij⟩
  · rintro ⟨i, hi, j, hij⟩
    exact ⟨j, (mem_ends_iff hr hplaces).mpr ⟨i, List.mem_range.mpr (Nat.lt_succ_of_le hi), hij⟩⟩

end KeyedSeries.Regex

import Mathlib.Data.List.Induction
import Mathlib.Data.List.Sort
import KeyedSeries.OrderedMap

/-!
# Maps from lists of entries

What `KeyedSeries.OrderedMap.ofList` makes of a list: of several entries with one
key the last one counts (`KeyedSeries.OrderedMap.get?_ofList_concat`). It does not
matter whether keys are sorted out before or after
(`KeyedSeries.OrderedMap.ofList_filter`), and the list of a map's own entries gives
the map back (`KeyedSeries.OrderedMap.ofList_toList`).
-/

namespace KeyedSeries.OrderedMap

universe u v w

variable {κ : Type u} {ν : Type v} {μ : Type w} [Ord κ]

/-! ### Entries and keys -/

theorem mem_keys_iff [Std.LawfulEqOrd κ] {m : OrderedMap κ ν} {k : κ} :
    k ∈ m.keys ↔ ∃ v, m.get? k = some v := by
  rw [keys, List.mem_map]
  constructor
  · rintro ⟨⟨k', v⟩, he, rfl⟩
    exact ⟨v, mem_toList_iff.mp he⟩
  · rintro ⟨v, hv⟩
    exact ⟨(k, v), mem_toList_iff.mpr hv, rfl⟩

/-- The keys of a map go up. -/
theorem pairwise_keys (m : OrderedMap κ ν) : m.keys.Pairwise fun a b => compare a b = .lt :=
  List.pairwise_map.mpr m.ascending

theorem keys_filter (p : κ → Bool) (m : OrderedMap κ ν) :
    (m.filter fun k _ => p k).keys = m.keys.filter p := by
  rw [keys, keys, filter, List.filter_map]
  rfl

theorem filter_filter (p q : κ → Bool) (m : OrderedMap κ ν) :
    (m.filter fun k _ => q k).filter (fun k _ => p k) = m.filter fun k _ => p k && q k := by
  simp only [filter, List.filter_filter]

theorem filter_congr {p q : κ → ν → Bool} {m : OrderedMap κ ν}
    (h : ∀ e ∈ m.entries, p e.1 e.2 = q e.1 e.2) : m.filter p = m.filter q := by
  simp only [filter, mk.injEq]
  exact List.filter_congr fun e he => h e he

/-- A filter that keeps the number of entries keeps them all. -/
theorem filter_eq_self_of_size {p : κ → ν → Bool} {m : OrderedMap κ ν}
    (h : (m.filter p).size = m.size) : m.filter p = m := by
  have hentries : m.entries.filter (fun e => p e.1 e.2) = m.entries :=
    List.filter_sublist.eq_of_length h
  simp only [filter, hentries]

theorem get?_filter [Std.LawfulEqOrd κ] (p : κ → ν → Bool) (m : OrderedMap κ ν) (k : κ) :
    (m.filter p).get? k = (m.get? k).filter (p k) := by
  refine Option.ext fun v => ?_
  rw [← mem_toList_iff, toList, filter, List.mem_filter, Option.filter_eq_some_iff]
  exact and_congr_left fun _ => mem_toList_iff

/-- Every value changed by its key and itself, keys kept. -/
def mapEntries (f : κ → ν → μ) (m : OrderedMap κ ν) : OrderedMap κ μ :=
  ⟨m.entries.map fun e => (e.1, f e.1 e.2), List.pairwise_map.mpr m.ascending⟩

theorem get?_mapEntries [Std.LawfulEqOrd κ] (f : κ → ν → μ) (m : OrderedMap κ ν) (k : κ) :
    (m.mapEntries f).get? k = (m.get? k).map (f k) := by
  refine Option.ext fun v => ?_
  rw [← mem_toList_iff, toList, mapEntries, List.mem_map, Option.map_eq_some_iff]
  constructor
  · rintro ⟨⟨k', v'⟩, he, heq⟩
    cases heq
    exact ⟨v', mem_toList_iff.mp he, rfl⟩
  · rintro ⟨v', hv', rfl⟩
    exact ⟨(k, v'), mem_toList_iff.mpr hv', rfl⟩

theorem get?_map [Std.LawfulEqOrd κ] (f : ν → μ) (m : OrderedMap κ ν) (k : κ) :
    (m.map f).get? k = (m.get? k).map f :=
  get?_mapEntries (fun _ => f) m k

section Lawful

variable [Std.TransOrd κ] [Std.LawfulEqOrd κ]

/-! ### Lists that go up -/

/-- Lists whose keys go up are the same if they have the same members. -/
theorem eq_of_mem_iff {α : Type w} (key : α → κ) {l l' : List α}
    (h : l.Pairwise fun a b => compare (key a) (key b) = .lt)
    (h' : l'.Pairwise fun a b => compare (key a) (key b) = .lt) (hmem : ∀ a, a ∈ l ↔ a ∈ l') :
    l = l' := by
  have hirrefl : Std.Irrefl fun a b => compare (key a) (key b) = .lt := ⟨fun a ha =>
    absurd (ha.symm.trans Std.ReflCmp.compare_self) nofun⟩
  have hantisymm : Std.Antisymm fun a b => compare (key a) (key b) = .lt := ⟨fun a b hab hba =>
    absurd (hba.symm.trans (Std.OrientedCmp.gt_of_lt hab)) nofun⟩
  exact h.eq_of_mem_iff h' hmem

/-! ### Maps from lists -/

theorem ofList_concat (l : List (κ × ν)) (e : κ × ν) :
    ofList (l ++ [e]) = (ofList l).insert e.1 e.2 := by
  rw [ofList, List.foldl_append]
  rfl

variable [DecidableEq κ]

/-- Of several entries with one key the last one counts. -/
theorem get?_ofList_concat (l : List (κ × ν)) (e : κ × ν) (k : κ) :
    (ofList (l ++ [e])).get? k = if k = e.1 then some e.2 else (ofList l).get? k := by
  rw [ofList_concat, get?_insert]

theorem mem_of_get?_ofList {l : List (κ × ν)} {k : κ} {v : ν} (h : (ofList l).get? k = some v) :
    (k, v) ∈ l := by
  induction l using List.reverseRecOn with
  | nil => cases h
  | append_singleton l e ih =>
    rw [get?_ofList_concat] at h
    split at h
    · next heq =>
      cases h
      rw [heq]
      exact List.mem_append_right _ List.mem_cons_self
    · exact List.mem_append_left _ (ih h)

theorem get?_ofList_isSome {l : List (κ × ν)} {k : κ} (h : k ∈ l.map (·.1)) :
    ((ofList l).get? k).isSome = true := by
  induction l using List.reverseRecOn with
  | nil => cases h
  | append_singleton l e ih =>
    rw [get?_ofList_concat]
    split
    · rfl
    · next hne =>
      rw [List.map_append, List.mem_append] at h
      rcases h with h | h
      · exact ih h
      · exact absurd (List.mem_singleton.mp h) hne

/-- A list of entries of a map, in any order and number, makes the part of the map
with the keys of the list. -/
theorem get?_ofList_of_mem {m : OrderedMap κ ν} {l : List (κ × ν)}
    (h : ∀ e ∈ l, m.get? e.1 = some e.2) (k : κ) :
    (ofList l).get? k = if k ∈ l.map (·.1) then m.get? k else none := by
  split
  · next hk =>
    obtain ⟨v, hv⟩ := Option.isSome_iff_exists.mp (get?_ofList_isSome hk)
    rw [hv, h _ (mem_of_get?_ofList hv)]
  · next hk =>
    rw [Option.eq_none_iff_forall_ne_some]
    intro v hv
    exact hk (List.mem_map.mpr ⟨(k, v), mem_of_get?_ofList hv, rfl⟩)

/-- **The entries of a map make the map.** -/
@[simp] theorem ofList_toList (m : OrderedMap κ ν) : ofList m.toList = m := by
  refine ext_get? fun k => ?_
  rw [get?_ofList_of_mem fun e he => mem_toList_iff.mp he]
  split
  · rfl
  · next hk =>
    rw [eq_comm, Option.eq_none_iff_forall_ne_some]
    exact fun v hv => hk (mem_keys_iff.mpr ⟨v, hv⟩)

theorem filter_insert (p : κ → Bool) (m : OrderedMap κ ν) (k : κ) (v : ν) :
    (m.insert k v).filter (fun k _ => p k) =
      if p k then (m.filter fun k _ => p k).insert k v else m.filter fun k _ => p k := by
  refine ext_get? fun k' => ?_
  rw [get?_filter_keys, get?_insert]
  by_cases hk : k' = k
  · subst hk
    by_cases hp : p k' = true
    · rw [if_pos hp, if_pos hp, get?_insert, if_pos rfl, if_pos rfl]
    · rw [if_neg hp, if_neg hp, get?_filter_keys, if_neg hp]
  · rw [if_neg hk]
    by_cases hp : p k = true
    · rw [if_pos hp, get?_insert, if_neg hk, get?_filter_keys]
    · rw [if_neg hp, get?_filter_keys]

/-- **Keys may be sorted out before or after** a map is made of a list. -/
theorem ofList_filter (p : κ → Bool) (l : List (κ × ν)) :
    ofList (l.filter fun e => p e.1) = (ofList l).filter fun k _ => p k := by
  induction l using List.reverseRecOn with
  | nil => rfl
  | append_singleton l e ih =>
    rw [List.filter_append, ofList_concat, filter_insert, ← ih]
    by_cases hp : p e.1 = true
    · simp [hp, ofList_concat]
    · simp [hp]

end Lawful

end KeyedSeries.OrderedMap

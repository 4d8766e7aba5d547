/-!
# Finite maps with ascending keys

A map is the list of its entries in strictly ascending key order, and the order
is part of the type. Two maps with the same entries are therefore *equal*, and
the order in which a map is listed, printed or stored is never in question:
tags go by their text, records by their key, directory entries by their place.

The three statements about a map are

* `KeyedSeries.OrderedMap.get?_insert` – **insertion changes one key**;
* `KeyedSeries.OrderedMap.get?_erase` – **removal forgets one key**;
* `KeyedSeries.OrderedMap.ext_get?` – **lookups determine the map**.
-/

namespace KeyedSeries

universe u v w

/-- A finite map, as the list of its entries in strictly ascending key order. -/
structure OrderedMap (κ : Type u) (ν : Type v) [Ord κ] where
  /-- The entries, smallest key first. -/
  entries : List (κ × ν)
  /-- Every key is smaller than all keys after it. -/
  ascending : entries.Pairwise fun a b => compare a.1 b.1 = .lt

namespace OrderedMap

variable {κ : Type u} {ν : Type v} {μ : Type w} [Ord κ]

instance [DecidableEq κ] [DecidableEq ν] : DecidableEq (OrderedMap κ ν) := fun a b =>
  decidable_of_iff (a.entries = b.entries) (by cases a; cases b; simp)

/-! ### Entry lists -/

/-- The value of the first entry whose key compares equal to `k`. -/
def lookup (k : κ) : List (κ × ν) → Option ν
  | [] => none
  | e :: rest => if compare k e.1 = .eq then some e.2 else lookup k rest

/-- Puts an entry at its place, over an entry of the same key if there is one. -/
def place (k : κ) (v : ν) : List (κ × ν) → List (κ × ν)
  | [] => [(k, v)]
  | e :: rest =>
    match compare k e.1 with
    | .lt => (k, v) :: e :: rest
    | .eq => (k, v) :: rest
    | .gt => e :: place k v rest

theorem mem_place {k : κ} {v : ν} {a : κ × ν} :
    ∀ {l : List (κ × ν)}, a ∈ place k v l → a = (k, v) ∨ a ∈ l
  | [], h => by simpa [place] using h
  | e :: rest, h => by
    unfold place at h
    split at h
    · simpa using h
    · rcases List.mem_cons.mp h with h | h
      · exact .inl h
      · exact .inr (List.mem_cons_of_mem _ h)
    · rcases List.mem_cons.mp h with h | h
      · exact .inr (h ▸ List.mem_cons_self)
      · exact (mem_place h).imp id (List.mem_cons_of_mem _)

theorem pairwise_place [Std.TransOrd κ] [Std.LawfulEqOrd κ] (k : κ) (v : ν) :
    ∀ {l : List (κ × ν)}, l.Pairwise (fun a b => compare a.1 b.1 = .lt) →
      (place k v l).Pairwise fun a b => compare a.1 b.1 = .lt
  | [], _ => by simp [place]
  | e :: rest, h => by
    have he := List.pairwise_cons.mp h
    unfold place
    split
    · rename_i hk
      refine List.pairwise_cons.mpr ⟨fun b hb => ?_, h⟩
      rcases List.mem_cons.mp hb with rfl | hb
      · exact hk
      · exact Std.TransCmp.lt_trans hk (he.1 b hb)
    · rename_i hk
      cases Std.LawfulEqCmp.eq_of_compare hk
      exact List.pairwise_cons.mpr ⟨he.1, he.2⟩
    · rename_i hk
      refine List.pairwise_cons.mpr ⟨fun b hb => ?_, pairwise_place k v he.2⟩
      rcases mem_place hb with rfl | hb
      · exact Std.OrientedCmp.gt_iff_lt.mp hk
      · exact he.1 b hb

/-! ### Maps -/

/-- The map without entries. -/
def empty : OrderedMap κ ν := ⟨[], .nil⟩

instance : Inhabited (OrderedMap κ ν) := ⟨empty⟩

instance : EmptyCollection (OrderedMap κ ν) := ⟨empty⟩

/-- The entries, smallest key first. -/
def toList (m : OrderedMap κ ν) : List (κ × ν) := m.entries

/-- The keys, smallest first. -/
def keys (m : OrderedMap κ ν) : List κ := m.entries.map (·.1)

/-- The values, by ascending key. -/
def values (m : OrderedMap κ ν) : List ν := m.entries.map (·.2)

/-- How many keys the map has. -/
def size (m : OrderedMap κ ν) : Nat := m.entries.length

/-- Whether the map has no key. -/
def isEmpty (m : OrderedMap κ ν) : Bool := m.entries.isEmpty

/-- The value at a key, if there is one. -/
def get? (m : OrderedMap κ ν) (k : κ) : Option ν := lookup k m.entries

/-- Whether the map has the key. -/
def contains (m : OrderedMap κ ν) (k : κ) : Bool := (m.get? k).isSome

/-- Keeps the entries that pass the test. -/
def filter (p : κ → ν → Bool) (m : OrderedMap κ ν) : OrderedMap κ ν :=
  ⟨m.entries.filter fun e => p e.1 e.2, m.ascending.filter _⟩

/-- The map without the key. -/
def erase (m : OrderedMap κ ν) (k : κ) : OrderedMap κ ν :=
  m.filter fun k' _ => compare k k' != .eq

/-- Every value changed, keys kept. -/
def map (f : ν → μ) (m : OrderedMap κ ν) : OrderedMap κ μ :=
  ⟨m.entries.map fun e => (e.1, f e.2), List.pairwise_map.mpr m.ascending⟩

section Lawful

variable [Std.TransOrd κ] [Std.LawfulEqOrd κ]

/-- The map with the value at the key, whatever the key held before. -/
def insert (m : OrderedMap κ ν) (k : κ) (v : ν) : OrderedMap κ ν :=
  ⟨place k v m.entries, pairwise_place k v m.ascending⟩

/-- Changes what a key holds; `none` stands for an absent key on both sides. -/
def alter (m : OrderedMap κ ν) (k : κ) (f : Option ν → Option ν) : OrderedMap κ ν :=
  match f (m.get? k) with
  | some v => m.insert k v
  | none => m.erase k

/-- The map of a list of entries; of several with one key the last counts. -/
def ofList (l : List (κ × ν)) : OrderedMap κ ν :=
  l.foldl (fun m e => m.insert e.1 e.2) empty

end Lawful

/-! ### What an operation does to a lookup -/

@[simp] theorem get?_empty (k : κ) : (empty : OrderedMap κ ν).get? k = none := rfl

theorem lookup_place_self [Std.ReflOrd κ] (k : κ) (v : ν) :
    ∀ l : List (κ × ν), lookup k (place k v l) = some v
  | [] => by simp [place, lookup]
  | e :: rest => by
    unfold place
    split
    · simp [lookup]
    · simp [lookup]
    · rename_i hk
      simp [lookup, hk, lookup_place_self k v rest]

theorem lookup_place_of_ne [Std.LawfulEqOrd κ] {k k' : κ} (h : k ≠ k') (v : ν) :
    ∀ l : List (κ × ν), lookup k' (place k v l) = lookup k' l
  | [] => by
    have h' : compare k' k ≠ .eq := fun hc => h (Std.LawfulEqCmp.eq_of_compare hc).symm
    simp [place, lookup, h']
  | e :: rest => by
    have h' : compare k' k ≠ .eq := fun hc => h (Std.LawfulEqCmp.eq_of_compare hc).symm
    unfold place
    split
    · simp [lookup, h']
    · rename_i hk
      cases Std.LawfulEqCmp.eq_of_compare hk
      simp [lookup, h']
    · simp [lookup, lookup_place_of_ne h v rest]

/-- **Insertion changes one key**: the inserted key holds the new value, and
every other key holds what it held. -/
theorem get?_insert [Std.TransOrd κ] [Std.LawfulEqOrd κ] [DecidableEq κ]
    (m : OrderedMap κ ν) (k k' : κ) (v : ν) :
    (m.insert k v).get? k' = if k' = k then some v else m.get? k' := by
  by_cases h : k' = k
  · subst h
    simp [get?, insert, lookup_place_self]
  · simp [get?, insert, h, lookup_place_of_ne (Ne.symm h)]

theorem lookup_filter_of_keep [Std.LawfulEqOrd κ] (p : κ → Bool) (k : κ) :
    ∀ l : List (κ × ν),
      lookup k (l.filter fun e => p e.1) = if p k then lookup k l else none
  | [] => by simp [lookup]
  | e :: rest => by
    have ih := lookup_filter_of_keep p k rest
    by_cases hk : compare k e.1 = .eq
    · cases Std.LawfulEqCmp.eq_of_compare hk
      by_cases hp : p e.1
      · simp [hp, lookup]
      · simpa [List.filter_cons, hp] using ih
    · by_cases hp : p e.1
      · simp [hp, lookup, hk, ih]
      · simp [hp, lookup, hk, ih]

/-- **Removal forgets one key** and leaves every other as it was. -/
theorem get?_erase [Std.LawfulEqOrd κ] [DecidableEq κ]
    (m : OrderedMap κ ν) (k k' : κ) :
    (m.erase k).get? k' = if k' = k then none else m.get? k' := by
  have h := lookup_filter_of_keep (ν := ν) (fun x => compare k x != .eq) k' m.entries
  simp only [get?, erase, filter, h]
  by_cases hk : k' = k
  · subst hk
    simp
  · have hc : compare k k' ≠ .eq := fun hc => hk (Std.LawfulEqCmp.eq_of_compare hc).symm
    simp [hk, hc]

/-- An alteration changes one key, as the function says. -/
theorem get?_alter [Std.TransOrd κ] [Std.LawfulEqOrd κ] [DecidableEq κ]
    (m : OrderedMap κ ν) (k k' : κ) (f : Option ν → Option ν) :
    (m.alter k f).get? k' = if k' = k then f (m.get? k) else m.get? k' := by
  unfold alter
  split
  · rename_i v hv
    rw [get?_insert, hv]
  · rename_i hv
    rw [get?_erase, hv]

theorem lookup_eq_some_of_mem [Std.LawfulEqOrd κ] {k : κ} {v : ν} :
    ∀ {l : List (κ × ν)}, l.Pairwise (fun a b => compare a.1 b.1 = .lt) →
      ((k, v) ∈ l ↔ lookup k l = some v)
  | [], _ => by simp [lookup]
  | e :: rest, h => by
    have he := List.pairwise_cons.mp h
    by_cases hk : compare k e.1 = .eq
    · cases Std.LawfulEqCmp.eq_of_compare hk
      have hne : (e.1, v) ∉ rest := fun hm => by
        have := he.1 _ hm
        simp at this
      rw [List.mem_cons, lookup, if_pos Std.ReflCmp.compare_self]
      constructor
      · rintro (h' | h')
        · rw [← h']
        · exact absurd h' hne
      · intro h'
        exact .inl (by simp only [Option.some.injEq] at h'; simp [← h'])
    · have hne : (k, v) ≠ e := fun heq => hk (by rw [← heq]; exact Std.ReflCmp.compare_self)
      rw [List.mem_cons, lookup, if_neg hk]
      simp [hne, lookup_eq_some_of_mem he.2]

/-- An entry is listed exactly when a lookup of its key finds its value. -/
theorem mem_toList_iff [Std.LawfulEqOrd κ] {m : OrderedMap κ ν} {k : κ} {v : ν} :
    (k, v) ∈ m.toList ↔ m.get? k = some v :=
  lookup_eq_some_of_mem m.ascending

/-- Keys filtered by a test keep their values. -/
theorem get?_filter_keys [Std.LawfulEqOrd κ] (p : κ → Bool) (m : OrderedMap κ ν) (k : κ) :
    (m.filter fun k _ => p k).get? k = if p k then m.get? k else none :=
  lookup_filter_of_keep p k m.entries

theorem lookup_eq_none_of_lt {k : κ} :
    ∀ {l : List (κ × ν)}, (∀ b ∈ l, compare k b.1 = .lt) → lookup k l = none
  | [], _ => rfl
  | e :: rest, h => by
    have he := h e List.mem_cons_self
    simp [lookup, he, lookup_eq_none_of_lt fun b hb => h b (List.mem_cons_of_mem _ hb)]

theorem eq_of_lookup_eq [Std.TransOrd κ] [Std.LawfulEqOrd κ] :
    ∀ {l₁ l₂ : List (κ × ν)}, l₁.Pairwise (fun a b => compare a.1 b.1 = .lt) →
      l₂.Pairwise (fun a b => compare a.1 b.1 = .lt) →
      (∀ k, lookup k l₁ = lookup k l₂) → l₁ = l₂
  | [], [], _, _, _ => rfl
  | [], e :: _, _, _, h => by simpa [lookup] using h e.1
  | e :: _, [], _, _, h => by simpa [lookup] using h e.1
  | e₁ :: r₁, e₂ :: r₂, h₁, h₂, h => by
    have hp₁ := List.pairwise_cons.mp h₁
    have hp₂ := List.pairwise_cons.mp h₂
    have hk : compare e₁.1 e₂.1 = .eq := by
      cases hc : compare e₁.1 e₂.1 with
      | eq => rfl
      | lt =>
        have hn : lookup e₁.1 (e₂ :: r₂) = none := lookup_eq_none_of_lt fun b hb => by
          rcases List.mem_cons.mp hb with rfl | hb
          · exact hc
          · exact Std.TransCmp.lt_trans hc (hp₂.1 b hb)
        have := h e₁.1
        rw [hn] at this
        simp [lookup] at this
      | gt =>
        have hc' := Std.OrientedCmp.gt_iff_lt.mp hc
        have hn : lookup e₂.1 (e₁ :: r₁) = none := lookup_eq_none_of_lt fun b hb => by
          rcases List.mem_cons.mp hb with rfl | hb
          · exact hc'
          · exact Std.TransCmp.lt_trans hc' (hp₁.1 b hb)
        have := h e₂.1
        rw [hn] at this
        simp [lookup] at this
    have hkey := Std.LawfulEqCmp.eq_of_compare hk
    have hval : e₁.2 = e₂.2 := by
      have := h e₁.1
      simpa [lookup, hk] using this
    have htail : ∀ k, lookup k r₁ = lookup k r₂ := fun k => by
      by_cases hke : compare k e₁.1 = .eq
      · cases Std.LawfulEqCmp.eq_of_compare hke
        rw [lookup_eq_none_of_lt hp₁.1, lookup_eq_none_of_lt fun b hb => by
          rw [hkey]
          exact hp₂.1 b hb]
      · have := h k
        simpa [lookup, hke, hkey ▸ hke] using this
    rw [Prod.ext hkey hval, eq_of_lookup_eq hp₁.2 hp₂.2 htail]

/-- **Lookups determine the map.** -/
theorem ext_get? [Std.TransOrd κ] [Std.LawfulEqOrd κ] {a b : OrderedMap κ ν}
    (h : ∀ k, a.get? k = b.get? k) : a = b := by
  cases a with
  | mk l₁ h₁ =>
    cases b with
    | mk l₂ h₂ =>
      have := eq_of_lookup_eq h₁ h₂ h
      subst this
      rfl

/-- Alterations that undo each other cancel out. -/
theorem alter_alter_cancel [Std.TransOrd κ] [Std.LawfulEqOrd κ] [DecidableEq κ]
    (m : OrderedMap κ ν) (k : κ) {f g : Option ν → Option ν} (h : ∀ v, g (f v) = v) :
    (m.alter k f).alter k g = m := by
  refine ext_get? fun k' => ?_
  simp only [get?_alter, if_true, h]
  split
  · next hk => rw [hk]
  · rfl

/-- The order of two alterations by the same function does not matter. -/
theorem alter_alter_comm [Std.TransOrd κ] [Std.LawfulEqOrd κ] [DecidableEq κ]
    (m : OrderedMap κ ν) (k₁ k₂ : κ) (f : Option ν → Option ν) :
    (m.alter k₁ f).alter k₂ f = (m.alter k₂ f).alter k₁ f := by
  by_cases h : k₁ = k₂
  · rw [h]
  · refine ext_get? fun k => ?_
    simp only [get?_alter, if_neg h, if_neg (Ne.symm h)]
    split
    · next hk => simp [hk, Ne.symm h]
    · rfl

end OrderedMap

end KeyedSeries

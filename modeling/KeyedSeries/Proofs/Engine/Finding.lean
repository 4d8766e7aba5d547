import KeyedSeries.Proofs.Engine.Targets

/-!
# Finding files

The targets that an engine finds for paths are taken by file, and of several with one file
the first one stays. **Every file that was found is worked on once**
(`KeyedSeries.Engine.mem_distinct_iff`), whatever the paths it was found by, and they go by
ascending places (`KeyedSeries.Engine.exists_places`).
-/

namespace KeyedSeries.Engine

open Disk FilePath

variable {targets : List Target} {t : Target}

/-! ### Each file once -/

/-- Under a file there is the first target with it. -/
theorem get?_foldl_keepFirst_eq (targets : List Target) (k : List String) :
    (targets.foldl keepFirst .empty).get? k = targets.find? fun t => t.file.components = k := by
  induction targets using List.reverseRecOn with
  | nil => rfl
  | append_singleton targets last ih =>
    rw [List.foldl_append, List.find?_append, ← ih]
    show (keepFirst _ last).get? k = _
    rw [keepFirst, OrderedMap.get?_alter]
    by_cases hk : k = last.file.components
    · rw [if_pos hk, ← hk, List.find?_cons_of_pos (by simp [hk])]
      cases (targets.foldl keepFirst .empty).get? k <;> rfl
    · rw [if_neg hk, List.find?_cons_of_neg (by simpa using Ne.symm hk)]
      simp

theorem mem_distinct_iff :
    t ∈ distinct targets ↔
      (targets.find? fun t' => t'.file.components = t.file.components) = some t := by
  rw [distinct_eq_foldl, OrderedMap.values, List.mem_map, ← get?_foldl_keepFirst_eq]
  constructor
  · rintro ⟨⟨k, t'⟩, hmem, rfl⟩
    have hget := OrderedMap.mem_toList_iff.mp hmem
    have hfind := hget
    rw [get?_foldl_keepFirst_eq] at hfind
    obtain rfl : t'.file.components = k := by simpa using List.find?_some hfind
    exact hget
  · exact fun hget => ⟨(t.file.components, t), OrderedMap.mem_toList_iff.mpr hget, rfl⟩

/-- What is left is what was found. -/
theorem mem_of_mem_distinct (h : t ∈ distinct targets) : t ∈ targets :=
  List.mem_of_find?_eq_some (mem_distinct_iff.mp h)

/-- Every file that was found is left. -/
theorem exists_mem_distinct (h : t ∈ targets) :
    ∃ t' ∈ distinct targets, t'.file.components = t.file.components := by
  have hsome : (targets.find? fun t' => t'.file.components = t.file.components).isSome := by
    rw [List.find?_isSome]
    exact ⟨t, h, by simp⟩
  obtain ⟨t', ht'⟩ := Option.isSome_iff_exists.mp hsome
  have heq : t'.file.components = t.file.components := by simpa using List.find?_some ht'
  exact ⟨t', mem_distinct_iff.mpr (by rw [heq, ht']), heq⟩

/-- The files go by ascending components. -/
theorem pairwise_distinct (targets : List Target) :
    ((distinct targets).map fun t => t.file.components).Pairwise fun k l => compare k l = .lt := by
  have hkeys : ((distinct targets).map fun t => t.file.components) =
      (targets.foldl keepFirst .empty).keys := by
    rw [distinct_eq_foldl, OrderedMap.values, OrderedMap.keys, List.map_map]
    refine List.map_congr_left fun entry hmem => ?_
    obtain ⟨k, t⟩ := entry
    have hget := OrderedMap.mem_toList_iff.mp hmem
    rw [get?_foldl_keepFirst_eq] at hget
    simpa using List.find?_some hget
  rw [hkeys]
  exact OrderedMap.pairwise_keys _

theorem ne_of_compare_eq_lt {p q : Place} (h : compare p q = .lt) : p ≠ q := by
  rintro rfl
  have hself : compare p p = .eq := Std.ReflCmp.compare_self
  rw [hself] at h
  cases h

/-- What is above a place comes before it. -/
theorem not_prefix_of_compare_eq_lt {p q : Place} (h : compare p q = .lt) : ¬q <+: p := by
  rintro ⟨names, rfl⟩
  have hnames : compare names [] = .lt := by
    rw [← compare_append_left q names [], List.append_nil, h]
  cases names <;> cases hnames

/-- **The files that are left** are those of places in ascending order, of all that were
found. -/
theorem exists_places (h : ∀ t ∈ targets, ∃ q, (∀ n ∈ q, isEntryName n = true) ∧
    t.file = ofPlace q) :
    ∃ places : List Place, (distinct targets).map (·.file) = places.map ofPlace ∧
      places.Pairwise (fun p q => compare p q = .lt) ∧
      (∀ q ∈ places, ∀ n ∈ q, isEntryName n = true) ∧
      ∀ q, (∀ n ∈ q, isEntryName n = true) → (q ∈ places ↔ ∃ t ∈ targets, t.file = ofPlace q) := by
  -- The components of a target's file are those of its place.
  have hplace : ∀ t ∈ distinct targets, ∃ q, (∀ n ∈ q, isEntryName n = true) ∧
      t.file = ofPlace q ∧ t.file.components = rootName :: q := by
    intro t ht
    obtain ⟨q, hq, hfile⟩ := h t (mem_of_mem_distinct ht)
    exact ⟨q, hq, hfile, by rw [hfile, components_ofPlace hq]⟩
  have htail : ∀ t ∈ distinct targets, rootName :: t.file.components.tail = t.file.components := by
    intro t ht
    obtain ⟨q, -, -, hcomponents⟩ := hplace t ht
    rw [hcomponents, List.tail_cons]
  refine ⟨(distinct targets).map fun t => t.file.components.tail, ?_, ?_, ?_, fun q hq => ?_⟩
  · rw [List.map_map]
    refine List.map_congr_left fun t ht => ?_
    obtain ⟨q, -, hfile, hcomponents⟩ := hplace t ht
    rw [Function.comp_apply, hcomponents, hfile, List.tail_cons]
  · have hpairs := pairwise_distinct targets
    rw [List.pairwise_map] at hpairs ⊢
    refine hpairs.imp_of_mem fun {t t'} ht ht' hlt => ?_
    rw [← htail t ht, ← htail t' ht'] at hlt
    rwa [← compare_append_left [rootName]]
  · intro q hq
    obtain ⟨t, ht, rfl⟩ := List.mem_map.mp hq
    obtain ⟨q, hq, -, hcomponents⟩ := hplace t ht
    rwa [hcomponents]
  · rw [List.mem_map]
    constructor
    · rintro ⟨t, ht, rfl⟩
      obtain ⟨q, -, hfile, hcomponents⟩ := hplace t ht
      exact ⟨t, mem_of_mem_distinct ht, by rw [hcomponents, hfile, List.tail_cons]⟩
    · rintro ⟨t, ht, hfile⟩
      obtain ⟨t', ht', hsame⟩ := exists_mem_distinct ht
      refine ⟨t', ht', ?_⟩
      rw [hsame, hfile, components_ofPlace hq, List.tail_cons]

end KeyedSeries.Engine

import Mathlib.Data.List.Forall2
import KeyedSeries.Proofs.Filter.Patterns
import KeyedSeries.Proofs.Filter.Reach
import KeyedSeries.Proofs.OrderedMap
import KeyedSeries.Rows

/-!
# Rows of fewer records

Merging the records with some keys gives the rows with these keys
(`KeyedSeries.Rows.merge_filter`). A filter only accepts rows whose keys it
reaches, and so it finds the same rows in tables that were cut down to its ranges
(`KeyedSeries.Rows.ofTables_narrowed`).
-/

namespace KeyedSeries

namespace Rows

/-! ### Keys -/

theorem keysOf_filter (p : Key → Bool) (ms : List (OrderedMap Key Value)) :
    keysOf (ms.map (·.filter fun k _ => p k)) = (keysOf ms).filter p := by
  have hkeys :
      (ms.map (·.filter fun k _ => p k)).flatMap (·.keys) = (ms.flatMap (·.keys)).filter p := by
    induction ms with
    | nil => rfl
    | cons m rest ih =>
      rw [List.map_cons, List.flatMap_cons, ih, OrderedMap.keys_filter, List.flatMap_cons,
        List.filter_append]
  rw [keysOf, keysOf, hkeys, ← OrderedMap.keys_filter, ← OrderedMap.ofList_filter, List.filter_map]
  rfl

theorem mem_keysOf {ms : List (OrderedMap Key Value)} {k : Key} (h : k ∈ keysOf ms) :
    ∃ m ∈ ms, k ∈ m.keys := by
  obtain ⟨v, hv⟩ := OrderedMap.mem_keys_iff.mp h
  obtain ⟨k', hk', heq⟩ := List.mem_map.mp (OrderedMap.mem_of_get?_ofList hv)
  cases heq
  exact List.mem_flatMap.mp hk'

/-- There is a row for every key of a table. -/
theorem mem_merge {ms : List (OrderedMap Key Value)} {m : OrderedMap Key Value} (hm : m ∈ ms)
    {k : Key} (hk : k ∈ m.keys) : ⟨k, ms.map (·.get? k)⟩ ∈ merge ms := by
  refine List.mem_map.mpr ⟨k, OrderedMap.mem_keys_iff.mpr ?_, rfl⟩
  refine Option.isSome_iff_exists.mp (OrderedMap.get?_ofList_isSome ?_)
  rw [List.map_map]
  exact List.mem_map.mpr ⟨k, List.mem_flatMap.mpr ⟨m, hm, hk⟩, rfl⟩

/-- The rows go by ascending key. -/
theorem pairwise_merge (ms : List (OrderedMap Key Value)) :
    (merge ms).Pairwise fun a b => a.key < b.key := by
  rw [merge, List.pairwise_map]
  exact (OrderedMap.pairwise_keys _).imp fun h => Std.compare_eq_lt.mp h

/-- **Merging the records with some keys gives the rows with these keys.** -/
theorem merge_filter (p : Key → Bool) (ms : List (OrderedMap Key Value)) :
    merge (ms.map (·.filter fun k _ => p k)) = (merge ms).filter fun r => p r.key := by
  rw [merge, merge, keysOf_filter, List.filter_map]
  refine List.map_congr_left fun k hk => ?_
  have hp : p k = true := (List.mem_filter.mp hk).2
  rw [List.map_map]
  congr 1
  refine List.map_congr_left fun m _ => ?_
  rw [Function.comp_apply, OrderedMap.get?_filter_keys, if_pos hp]

end Rows

/-! ### Tables cut down to ranges -/

/-- The second table is the first one cut down to some ranges, and the first one
has no record that no range could hold. -/
structure Table.Narrowed (ranges : List KeyRange) (t t' : Table) : Prop where
  /-- The type is the same. -/
  dataType : t'.dataType = t.dataType
  /-- So are the tags. -/
  tags : t'.tags = t.tags
  /-- The records are those in the ranges. -/
  records : Rows.byKey t' = (Rows.byKey t).filter fun k _ => KeyRange.anyContains ranges k
  /-- The keys are such as series can store. -/
  storable : ∀ k ∈ (Rows.byKey t).keys, k < Key.top

namespace Rows

/-! ### Rows of tables -/

/-- The columns of named tables. -/
def headerOf (tables : List (String × Table)) : List SeriesInfo :=
  tables.map fun t => ⟨t.1, t.2.dataType, t.2.tags⟩

/-- The records of named tables. -/
def contents (tables : List (String × Table)) : List (OrderedMap Key Value) :=
  tables.map fun t => byKey t.2

theorem ofTables_none (tables : List (String × Table)) :
    ofTables tables none = ⟨headerOf tables, merge (contents tables)⟩ := rfl

/-- **The rows of tables** that a filter accepts, by plain evaluation. -/
theorem ofTables_some (tables : List (String × Table)) (f : Filter) :
    ofTables tables (some f) = ⟨headerOf tables, (merge (contents tables)).filter fun r =>
      f.accepts (r.forFilter (headerOf tables))⟩ := by
  show Rows.mk (headerOf tables) ((merge (contents tables)).filter fun r =>
    f.prepare.accepts (r.forFilter (headerOf tables))) = _
  simp only [Filter.accepts_prepare]

/-! ### Rows of tables cut down to ranges -/

/-- Named tables cut down to ranges, under the same names. -/
def Narrowed (ranges : List KeyRange) : List (String × Table) → List (String × Table) → Prop :=
  List.Forall₂ fun a b => b.1 = a.1 ∧ a.2.Narrowed ranges b.2

variable {ranges : List KeyRange} {tables tables' : List (String × Table)}

theorem Narrowed.headerOf (h : Narrowed ranges tables tables') :
    headerOf tables' = headerOf tables := by
  rw [Rows.headerOf, Rows.headerOf]
  induction h with
  | nil => rfl
  | cons hab _ ih => rw [List.map_cons, List.map_cons, ih, hab.1, hab.2.dataType, hab.2.tags]

theorem Narrowed.contents (h : Narrowed ranges tables tables') :
    contents tables' =
      (contents tables).map (·.filter fun k _ => KeyRange.anyContains ranges k) := by
  rw [Rows.contents, Rows.contents]
  induction h with
  | nil => rfl
  | cons hab _ ih => rw [List.map_cons, List.map_cons, List.map_cons, ih, hab.2.records]

theorem Narrowed.key_lt_top (h : Narrowed ranges tables tables') {r : Row}
    (hr : r ∈ merge (Rows.contents tables)) : r.key < Key.top := by
  obtain ⟨k, hk, rfl⟩ := List.mem_map.mp hr
  obtain ⟨m, hm, hkm⟩ := mem_keysOf hk
  obtain ⟨t, ht, rfl⟩ := List.mem_map.mp hm
  clear hm hk hr
  induction h with
  | nil => cases ht
  | cons hab _ ih =>
    rcases List.mem_cons.mp ht with rfl | ht
    · exact hab.2.storable k hkm
    · exact ih ht

/-- **A filter finds the same rows in tables cut down to its ranges.** -/
theorem ofTables_narrowed {f : Filter} (h : Narrowed f.ranges tables tables') :
    ofTables tables' (some f) = ⟨Rows.headerOf tables, (merge (Rows.contents tables)).filter
      fun r => f.accepts (r.forFilter (Rows.headerOf tables))⟩ := by
  rw [ofTables_some, h.headerOf, h.contents, merge_filter, List.filter_filter]
  refine congrArg _ (List.filter_congr fun r hr => ?_)
  -- What the filter accepts has a key that its ranges hold.
  rw [Bool.and_eq_left_iff_imp]
  intro haccepts
  have hkey : (r.forFilter (Rows.headerOf tables)).key < Key.top := h.key_lt_top hr
  have hreached := Filter.anyContains_ranges_of_accepts hkey haccepts
  exact hreached

end Rows

end KeyedSeries

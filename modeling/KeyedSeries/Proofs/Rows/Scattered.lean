import KeyedSeries.Proofs.Rows

/-!
# Rows from the records of one table after the other

The rows of tables are described key by key: there is a row for a key that some
table has a record of, and every column of it has what the last such record of its
table holds (`KeyedSeries.Rows.lastValue?`). Records may stand in any order, with
keys that come back, and names of tables may come back too.

Rows can be had in one pass as well. Every record puts its value into the row of its
key, at the place of its table, and a row is made, all of its cells empty, when its
key comes up first (`KeyedSeries.Rows.put`). Behind every table, the row of a key
holds the last values of the tables so far and nothing from there on
(`KeyedSeries.Rows.cellsAt_scatter`), and in the end **the one pass has made the rows
of the tables** (`KeyedSeries.Rows.rows_scatter`).

What follows is **which rows there are, and what they hold**
(`KeyedSeries.Rows.ofTables_by_key`): in ascending order of keys, those that the filter
accepts once all of their cells are filled. A name stands for the first table of that
name.
-/

namespace KeyedSeries

namespace Rows

/-! ### The last record of a key -/

/-- What the last of some records with a key holds. -/
def lastValue? (records : List Record) (k : Key) : Option Value :=
  (records.filter fun x => x.key = k).getLast?.map (·.value)

theorem lastValue?_concat (records : List Record) (x : Record) (k : Key) :
    lastValue? (records ++ [x]) k =
      if k = x.key then some x.value else lastValue? records k := by
  by_cases hk : k = x.key
  · simp [lastValue?, List.filter_append, hk]
  · simp [lastValue?, List.filter_append, hk, Ne.symm hk]

/-- A table has its records by their last values. -/
theorem get?_byKey (t : Table) (k : Key) : (byKey t).get? k = lastValue? t.records k := by
  rw [byKey]
  induction t.records using List.reverseRecOn with
  | nil => rfl
  | append_singleton records x ih =>
    rw [List.map_append, List.map_singleton, OrderedMap.get?_ofList_concat, ih,
      lastValue?_concat]

theorem isSome_lastValue?_iff {records : List Record} {k : Key} :
    (lastValue? records k).isSome = true ↔ ∃ x ∈ records, x.key = k := by
  simp [lastValue?]

/-! ### The keys and the row of a key -/

/-- Some of the tables has a record with the key. -/
def HasKey (tables : List (String × Table)) (k : Key) : Prop :=
  ∃ t ∈ tables, ∃ x ∈ t.2.records, x.key = k

/-- The row of a key, with the last value of every table. -/
def rowAt (tables : List (String × Table)) (k : Key) : Row :=
  ⟨k, tables.map fun t => lastValue? t.2.records k⟩

theorem mem_keysOf_iff {tables : List (String × Table)} {k : Key} :
    k ∈ keysOf (contents tables) ↔ HasKey tables k := by
  have hkeys : ∀ t : Table, k ∈ (byKey t).keys ↔ ∃ x ∈ t.records, x.key = k := fun t => by
    rw [OrderedMap.mem_keys_iff, ← Option.isSome_iff_exists, get?_byKey, isSome_lastValue?_iff]
  constructor
  · intro hk
    obtain ⟨m, hm, hkm⟩ := mem_keysOf hk
    obtain ⟨t, ht, rfl⟩ := List.mem_map.mp hm
    exact ⟨t, ht, (hkeys t.2).mp hkm⟩
  · rintro ⟨t, ht, hx⟩
    have hcontents : byKey t.2 ∈ contents tables := List.mem_map_of_mem ht
    have hrow := mem_merge hcontents ((hkeys t.2).mpr hx)
    obtain ⟨k', hk', heq⟩ := List.mem_map.mp hrow
    cases heq
    exact hk'

/-- **The rows of tables**: one for every key of a table, with the last values. -/
theorem mem_merge_iff {tables : List (String × Table)} {r : Row} :
    r ∈ merge (contents tables) ↔ HasKey tables r.key ∧ r = rowAt tables r.key := by
  have hvalues : ∀ k, (contents tables).map (·.get? k) = (rowAt tables k).values := fun k => by
    rw [contents, List.map_map, rowAt]
    exact List.map_congr_left fun t _ => get?_byKey t.2 k
  constructor
  · intro hr
    obtain ⟨k, hk, rfl⟩ := List.mem_map.mp hr
    exact ⟨mem_keysOf_iff.mp hk, congrArg (Row.mk k) (hvalues k)⟩
  · rintro ⟨hk, hr⟩
    rw [hr, merge, List.mem_map]
    exact ⟨r.key, mem_keysOf_iff.mpr hk, congrArg (Row.mk r.key) (hvalues r.key)⟩

/-! ### One pass over the records -/

/-- The cells of a key: those of its row, or as many empty ones as a row has. -/
def cellsAt (width : Nat) (rows : OrderedMap Key (List (Option Value))) (k : Key) :
    List (Option Value) :=
  (rows.get? k).getD (List.replicate width none)

/-- Puts the value of a record of a column into the row of its key. -/
def put (width column : Nat) (rows : OrderedMap Key (List (Option Value))) (x : Record) :
    OrderedMap Key (List (Option Value)) :=
  rows.insert x.key ((cellsAt width rows x.key).set column (some x.value))

/-- Puts the records of tables into rows, table by table. -/
def scatter (width : Nat) (tables : List (String × Table)) :
    OrderedMap Key (List (Option Value)) :=
  tables.zipIdx.foldl (fun rows t => t.1.2.records.foldl (put width t.2) rows) .empty

variable {width column : Nat} {rows : OrderedMap Key (List (Option Value))}

/-- A record changes one cell of the row of its key. -/
theorem cellsAt_put (x : Record) (k : Key) :
    cellsAt width (put width column rows x) k =
      if k = x.key then (cellsAt width rows k).set column (some x.value)
      else cellsAt width rows k := by
  rw [cellsAt, put, OrderedMap.get?_insert]
  split
  · next hk =>
    rw [hk]
    rfl
  · rfl

theorem isSome_get?_put (x : Record) (k : Key) :
    ((put width column rows x).get? k).isSome = true ↔
      (rows.get? k).isSome = true ∨ x.key = k := by
  rw [put, OrderedMap.get?_insert]
  split
  · next hk => simp [hk]
  · next hk => simp [Ne.symm hk]

/-- **Behind the records of a column**, its cell of a key has the last value of the key, if the
key has one at all. -/
theorem cellsAt_foldl_put (records : List Record) (k : Key) :
    cellsAt width (records.foldl (put width column) rows) k =
      match lastValue? records k with
      | some v => (cellsAt width rows k).set column (some v)
      | none => cellsAt width rows k := by
  induction records using List.reverseRecOn with
  | nil => rfl
  | append_singleton records x ih =>
    rw [List.foldl_append, List.foldl_cons, List.foldl_nil, cellsAt_put, ih, lastValue?_concat]
    split
    · -- The value of the record comes over what the records before it may have put there.
      split
      · exact List.set_set ..
      · rfl
    · rfl

theorem isSome_get?_foldl_put (records : List Record) (k : Key) :
    ((records.foldl (put width column) rows).get? k).isSome = true ↔
      (rows.get? k).isSome = true ∨ ∃ x ∈ records, x.key = k := by
  induction records generalizing rows with
  | nil => simp
  | cons x records ih =>
    rw [List.foldl_cons, ih, isSome_get?_put, or_assoc, List.exists_mem_cons_iff]

theorem scatter_concat (tables : List (String × Table)) (t : String × Table) :
    scatter width (tables ++ [t]) =
      t.2.records.foldl (put width tables.length) (scatter width tables) := by
  rw [scatter, List.zipIdx_append, List.foldl_append]
  simp [scatter]

/-- **Behind the first tables**, the row of a key has their last values, and nothing in the
columns of the other ones. -/
theorem cellsAt_scatter (tables : List (String × Table)) (hwidth : tables.length ≤ width)
    (k : Key) :
    cellsAt width (scatter width tables) k =
      (rowAt tables k).values ++ List.replicate (width - tables.length) none := by
  induction tables using List.reverseRecOn with
  | nil => rfl
  | append_singleton tables t ih =>
    rw [List.length_append, List.length_singleton] at hwidth
    have hlength : (rowAt tables k).values.length = tables.length := List.length_map ..
    have hempty : List.replicate (width - tables.length) (none : Option Value) =
        none :: List.replicate (width - (tables.length + 1)) none := by
      rw [← List.replicate_succ]
      congr 1
      omega
    have hvalues : (rowAt (tables ++ [t]) k).values =
        (rowAt tables k).values ++ [lastValue? t.2.records k] := List.map_append ..
    rw [scatter_concat, cellsAt_foldl_put, ih (by omega), hempty, hvalues, List.length_append,
      List.length_singleton, List.append_assoc, List.singleton_append]
    cases lastValue? t.2.records k with
    | none => rfl
    | some v =>
      -- The column of the table is the first one of those that were still empty.
      show List.set _ tables.length (some v) = _
      rw [← hlength, List.set_append_right _ _ (Nat.le_refl _), Nat.sub_self, List.set_cons_zero]

theorem isSome_get?_scatter (tables : List (String × Table)) (k : Key) :
    ((scatter width tables).get? k).isSome = true ↔ HasKey tables k := by
  induction tables using List.reverseRecOn with
  | nil => simp [scatter, HasKey]
  | append_singleton tables t ih =>
    rw [scatter_concat, isSome_get?_foldl_put, ih]
    simp [HasKey, or_and_right, exists_or]

/-- **The one pass makes the rows of the tables.** -/
theorem rows_scatter (tables : List (String × Table)) :
    (scatter tables.length tables).toList.map (fun e => Row.mk e.1 e.2) =
      merge (contents tables) := by
  refine OrderedMap.eq_of_mem_iff Row.key ?_ ?_ fun r => ?_
  · rw [List.pairwise_map]
    exact (scatter tables.length tables).ascending
  · exact (pairwise_merge _).imp fun h => Std.compare_eq_lt.mpr h
  · have hcells := cellsAt_scatter tables (Nat.le_refl _) r.key
    rw [Nat.sub_self, List.replicate_zero, List.append_nil] at hcells
    have hkey : ((scatter tables.length tables).get? r.key).isSome = true ↔ HasKey tables r.key :=
      isSome_get?_scatter tables r.key
    rw [mem_merge_iff, ← hkey, List.mem_map]
    constructor
    · rintro ⟨⟨k, values⟩, he, rfl⟩
      have hget := OrderedMap.mem_toList_iff.mp he
      rw [cellsAt, hget] at hcells
      exact ⟨Option.isSome_iff_exists.mpr ⟨values, hget⟩, congrArg (Row.mk k) hcells⟩
    · rintro ⟨hsome, hr⟩
      obtain ⟨values, hget⟩ := Option.isSome_iff_exists.mp hsome
      rw [cellsAt, hget] at hcells
      refine ⟨(r.key, values), OrderedMap.mem_toList_iff.mpr hget, ?_⟩
      rw [hr]
      exact congrArg (Row.mk r.key) hcells

/-! ### Columns by name -/

/-- A name stands for the first table of that name. -/
theorem get?_rowAt (tables : List (String × Table)) (k : Key) (name : String) :
    (rowAt tables k).get? (headerOf tables) name =
      (tables.find? (·.1 == name)).bind fun t => lastValue? t.2.records k := by
  have hcolumn : columnOf? (headerOf tables) name = tables.findIdx? (·.1 == name) := by
    rw [columnOf?, headerOf, List.findIdx?_map]
    rfl
  rw [Row.get?, hcolumn, List.find?_eq_bind_findIdx?_getElem?, Option.bind_assoc]
  refine Option.bind_congr fun column _ => ?_
  rw [rowAt, List.getElem?_map]
  cases tables[column]? with
  | none => rfl
  | some t => rfl

/-! ### The rows that a filter accepts -/

/-- An optional filter keeps the rows that it accepts by plain evaluation. -/
theorem ofTables_eq (tables : List (String × Table)) (filter : Option Filter) :
    ofTables tables filter = ⟨headerOf tables, (merge (contents tables)).filter fun r =>
      filter.all fun f => f.accepts (r.forFilter (headerOf tables))⟩ := by
  cases filter with
  | none =>
    rw [ofTables_none]
    simp
  | some f => exact ofTables_some tables f

/-- **Which rows tables have, and what they hold.** The columns are the tables in order, and the
rows go by ascending key. There is a row for every key that some table has, if the filter, where
there is one, accepts the row of the key; it has the last value of the key in every table, and a
name finds in it what the first table of that name has. Rows that are filled in one pass over the
records, and then filtered, are the same. -/
theorem ofTables_by_key (tables : List (String × Table)) (filter : Option Filter) :
    (ofTables tables filter).header =
        tables.map (fun t => SeriesInfo.mk t.1 t.2.dataType t.2.tags) ∧
      (ofTables tables filter).rows.Pairwise (fun a b => a.key < b.key) ∧
      (∀ k, (∃ r ∈ (ofTables tables filter).rows, r.key = k) ↔
        (∃ t ∈ tables, ∃ x ∈ t.2.records, x.key = k) ∧
          filter.all (fun f =>
            f.accepts ((rowAt tables k).forFilter (ofTables tables filter).header)) = true) ∧
      (∀ r ∈ (ofTables tables filter).rows,
        r.values = tables.map (fun t => lastValue? t.2.records r.key) ∧
          ∀ name, r.get? (ofTables tables filter).header name =
            (tables.find? (·.1 == name)).bind fun t => lastValue? t.2.records r.key) ∧
      (ofTables tables filter).rows =
        ((scatter tables.length tables).toList.map fun e => Row.mk e.1 e.2).filter fun r =>
          filter.all fun f => f.accepts (r.forFilter (ofTables tables filter).header) := by
  rw [ofTables_eq]
  refine ⟨rfl, (pairwise_merge _).filter _, fun k => ⟨?_, ?_⟩, fun r hr => ?_, ?_⟩
  · rintro ⟨r, hr, rfl⟩
    obtain ⟨hmem, haccepts⟩ := List.mem_filter.mp hr
    obtain ⟨hk, heq⟩ := mem_merge_iff.mp hmem
    rw [heq] at haccepts
    exact ⟨hk, haccepts⟩
  · rintro ⟨hk, haccepts⟩
    have hmem : rowAt tables k ∈ merge (contents tables) := mem_merge_iff.mpr ⟨hk, rfl⟩
    exact ⟨rowAt tables k, List.mem_filter.mpr ⟨hmem, haccepts⟩, rfl⟩
  · obtain ⟨-, heq⟩ := mem_merge_iff.mp (List.mem_filter.mp hr).1
    refine ⟨congrArg Row.values heq, fun name => ?_⟩
    rw [heq]
    exact get?_rowAt tables r.key name
  · rw [rows_scatter]

/-- Three tables, of which the first and the last have one name, and the second has no records.
The first one has its records out of order, and two of them under one key. -/
def namesakes : List (String × Table) :=
  [("a", ⟨⟨"/d/u/a"⟩, .long, .empty,
      [⟨3, .long, .long 30⟩, ⟨1, .long, .long 10⟩, ⟨1, .long, .long 11⟩]⟩),
    ("b", ⟨⟨"/d/u/b"⟩, .boolean, .empty, []⟩),
    ("a", ⟨⟨"/d/v/a"⟩, .long, .empty, [⟨2, .long, .long 20⟩, ⟨3, .long, .long 31⟩]⟩)]

theorem ofTables_by_key_namesakes :
    let s := ofTables namesakes (some (.cell "a" .gt (.long 10)))
    s.rows = [⟨1, [some (.long 11), none, none]⟩, ⟨3, [some (.long 30), none, some (.long 31)]⟩] ∧
      ∀ r ∈ s.rows, r.get? s.header "a" =
        (namesakes.find? (·.1 == "a")).bind fun t => lastValue? t.2.records r.key := by
  intro s
  obtain ⟨-, -, -, hcells, -⟩ := ofTables_by_key namesakes (some (.cell "a" .gt (.long 10)))
  exact ⟨by decide +kernel, fun r hr => (hcells r hr).2 "a"⟩

end Rows

end KeyedSeries

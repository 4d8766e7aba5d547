import KeyedSeries.Proofs.Rows
import KeyedSeries.Store.Directory

/-!
# Reading the records in some ranges

Reading goes by ranges, and what it gives are the records of the whole content
with keys in the ranges: of a series document, where one part after the other is
read (`KeyedSeries.DirectoryStore.recordsIn_eq_within`), as of a file of the
history. So a read by ranges is the read of everything, cut down
(`KeyedSeries.DirectoryStore.read_narrowed`).
-/

namespace KeyedSeries

/-! ### Parts of a list that goes up -/

/-- What one condition takes from a list that goes up stands before what another one takes, if
whatever meets the first comes before whatever meets the other. -/
theorem filter_or_of_pairwise {α : Type} {before : α → α → Prop} {p q : α → Bool} {l : List α}
    (h : l.Pairwise before) (hpq : ∀ a b, p a = true → q b = true → ¬before b a)
    (hdisjoint : ∀ a, p a = true → q a = false) :
    l.filter (fun a => p a || q a) = l.filter p ++ l.filter q := by
  induction l with
  | nil => rfl
  | cons a rest ih =>
    obtain ⟨ha, hrest⟩ := List.pairwise_cons.mp h
    cases hp : p a with
    | true => simp [hp, hdisjoint a hp, ih hrest]
    | false =>
      cases hq : q a with
      | false => simp [hp, hq, ih hrest]
      | true =>
        -- Nothing behind this one meets the first condition any more.
        have hnone : rest.filter p = [] :=
          List.filter_eq_nil_iff.mpr fun b hb hpb => hpq b a hpb hq (ha b hb)
        rw [List.filter_cons_of_pos (by simp [hq]), ih hrest, hnone,
          List.filter_cons_of_neg (by simp [hp]), hnone, List.filter_cons_of_pos hq]
        rfl

namespace DirectoryStore

open KeyRange

/-! ### Series documents -/

/-- The entries in the ranges of a canonical list are parts of the whole, one behind the other. -/
theorem flatMap_filter_of_canonical {ranges : List KeyRange} (h : Canonical ranges)
    {entries : List (Key × Value)} (hentries : entries.Pairwise fun a b => a.1 < b.1) :
    (ranges.flatMap fun range => entries.filter fun e => range.contains e.1) =
      entries.filter fun e => anyContains ranges e.1 := by
  induction ranges with
  | nil => exact (List.filter_eq_nil_iff.mpr nofun).symm
  | cons r rest ih =>
    simp only [List.flatMap_cons, ih h.tail, anyContains_cons]
    refine (filter_or_of_pairwise hentries (fun a b ha hb hlt => ?_) fun a ha => ?_).symm
    · have hstop := h.stop_lt hb
      exact Int64.lt_asymm (Int64.lt_trans (contains_iff.mp ha).2 hstop) hlt
    · rw [Bool.eq_false_iff]
      intro hmore
      exact Int64.lt_asymm (contains_iff.mp ha).2 (h.stop_lt hmore)

/-- All records of a document, in order. -/
def recordsOfAll (doc : Document) : List Record :=
  doc.records.toList.map fun (k, v) => ⟨k, doc.dataType, v⟩

/-- The records whose keys lie in some range. -/
def within (ranges : List KeyRange) (records : List Record) : List Record :=
  records.filter fun r => anyContains ranges r.key

/-- **What is read of a document** are its records in the ranges. -/
theorem recordsIn_eq_within (doc : Document) (ranges : List KeyRange) :
    recordsIn doc ranges = within ranges (recordsOfAll doc) := by
  have hascending : doc.records.toList.Pairwise fun a b => a.1 < b.1 :=
    doc.records.ascending.imp fun h => Std.compare_eq_lt.mp h
  rw [within, recordsOfAll, List.filter_map, recordsIn, ← List.map_flatMap,
    flatMap_filter_of_canonical (canonical_normalize ranges) hascending]
  simp only [anyContains_normalize]
  rfl

/-- **The records of a document that lie in the ranges**, by key. -/
theorem byKey_recordsIn (file : FilePath) (doc : Document) (ranges : List KeyRange) :
    Rows.byKey ⟨file, doc.dataType, doc.tags, recordsIn doc ranges⟩ =
      doc.records.filter fun k _ => anyContains ranges k := by
  have hentries : (recordsIn doc ranges).map (fun r => (r.key, r.value)) =
      doc.records.toList.filter fun e => anyContains ranges e.1 := by
    rw [recordsIn_eq_within, within, recordsOfAll, List.filter_map, List.map_map]
    exact List.map_id _
  rw [Rows.byKey, hentries, OrderedMap.ofList_filter, OrderedMap.ofList_toList]

/-! ### Files of the history -/

/-- The records of a file of the history that lie in the ranges, by key. -/
theorem byKey_filter (file : FilePath) (records : List Record) (ranges : List KeyRange) :
    Rows.byKey ⟨file, .binary, .empty, records.filter fun r => anyContains ranges r.key⟩ =
      (Rows.byKey ⟨file, .binary, .empty, records⟩).filter fun k _ => anyContains ranges k := by
  rw [Rows.byKey, Rows.byKey, ← OrderedMap.ofList_filter, List.filter_map]
  rfl

/-! ### Tables -/

/-- Two parts of one content, one by all ranges and the other one by some of them,
are a table and the table cut down. -/
theorem narrowed_of_byKey {t t' : Table} {content : OrderedMap Key Value} {ranges : List KeyRange}
    (htype : t'.dataType = t.dataType) (htags : t'.tags = t.tags)
    (ht : Rows.byKey t = content.filter fun k _ => anyContains [full] k)
    (ht' : Rows.byKey t' = content.filter fun k _ => anyContains ranges k) :
    t.Narrowed ranges t' where
  dataType := htype
  tags := htags
  records := by
    rw [ht, ht', OrderedMap.filter_filter]
    refine OrderedMap.filter_congr fun e _ => ?_
    rw [eq_comm, Bool.and_eq_left_iff_imp]
    exact fun hk => anyContains_full.mpr (lt_top_of_anyContains hk)
  storable := by
    intro k hk
    rw [ht, OrderedMap.keys_filter] at hk
    exact anyContains_full.mp (List.mem_filter.mp hk).2

/-- **Reading by ranges is reading everything, cut down**, in a unit and in the
history. -/
theorem read_narrowed (d : Disk) (chunkSize : Nat) (file : FilePath) (filter : Option TagFilter)
    (ranges : List KeyRange) (isHistory : Bool) {ts : List Table}
    (h : (if isHistory then readHistory d chunkSize file [full]
      else readSeries d file filter [full]) = .ok ts) :
    ∃ ts', (if isHistory then readHistory d chunkSize file ranges
      else readSeries d file filter ranges) = .ok ts' ∧
        List.Forall₂ (Table.Narrowed ranges) ts ts' := by
  cases isHistory with
  | true =>
    simp only [if_true, readHistory] at h ⊢
    split at h
    · next hfile =>
      rw [if_pos hfile]
      split at h
      · cases h
      · next content hread =>
        cases h
        exact ⟨_, rfl, .cons (narrowed_of_byKey rfl rfl (byKey_filter ..) (byKey_filter ..)) .nil⟩
    · next hfile =>
      -- There is no such file, whatever the ranges.
      cases h
      rw [if_neg hfile]
      exact ⟨[], rfl, .nil⟩
  | false =>
    simp only [Bool.false_eq_true, if_false, readSeries] at h ⊢
    split at h
    · cases h
    · cases h
      exact ⟨[], rfl, .nil⟩
    · next doc hload =>
      split at h
      · next haccepts =>
        cases h
        rw [if_pos haccepts]
        exact ⟨_, rfl,
          .cons (narrowed_of_byKey rfl rfl (byKey_recordsIn ..) (byKey_recordsIn ..)) .nil⟩
      · next haccepts =>
        cases h
        rw [if_neg haccepts]
        exact ⟨[], rfl, .nil⟩

end DirectoryStore

end KeyedSeries

import KeyedSeries.Proofs.Engine.Action
import KeyedSeries.Proofs.Store.Reading

/-!
# Reading only the keys that a filter can reach

A projection with a filter reads only the ranges that the filter yields, and
nothing at all if it yields none. Its rows are still those of the projection
without the filter that the filter accepts
(`KeyedSeries.Engine.project_filter`).
-/

namespace KeyedSeries.Engine

open KeyRange

variable {e : Engine DirectoryStore} {chunkSize : Nat}

/-! ### Tables of targets -/

/-- The tables of targets by ranges are their tables, cut down. -/
theorem readAll_narrowed (he : e.store = DirectoryStore.store chunkSize) {tags : Option TagFilter}
    {isHistory : Bool} (ranges : List KeyRange) {targets : List Target}
    {tables : List (String × Table)} {s t : EngineState DirectoryStore}
    (h : outcome (e.readAll tags [full] isHistory targets) s = (.ok tables, t)) :
    ∃ tables', outcome (e.readAll tags ranges isHistory targets) s = (.ok tables', t) ∧
      Rows.Narrowed ranges tables tables' := by
  induction targets generalizing tables s t with
  | nil =>
    rw [readAll, outcome_pure] at h
    cases h
    exact ⟨[], rfl, .nil⟩
  | cons target rest ih =>
    rw [readAll, outcome_bind_eq_ok_iff] at h
    obtain ⟨first, s', hfirst, h⟩ := h
    obtain ⟨others, t', hothers, h⟩ := outcome_bind_eq_ok_iff.mp h
    cases h
    obtain ⟨store, hread, rfl⟩ := outcome_callFor_eq_ok_iff.mp hfirst
    rw [he] at hread
    obtain ⟨hclosed, htables, rfl⟩ := DirectoryStore.outcome_read_eq_ok_iff.mp hread
    obtain ⟨first', hread', hnarrowed⟩ := DirectoryStore.read_narrowed s.store.disk
      (max chunkSize 1) target.file tags ranges isHistory htables
    obtain ⟨others', hothers', hrest⟩ := ih hothers
    -- Both reads go the same way, from one target to the next.
    refine ⟨first'.map (target.path, ·) ++ others', ?_, ?_⟩
    · rw [readAll, outcome_bind_eq_ok_iff]
      refine ⟨first', s, ?_, outcome_bind_eq_ok_iff.mpr ⟨others', t, hothers', rfl⟩⟩
      rw [outcome_callFor_eq_ok_iff, he]
      exact ⟨s.store, DirectoryStore.outcome_read_eq_ok_iff.mpr ⟨hclosed, hread', rfl⟩, rfl⟩
    · refine List.rel_append ?_ hrest
      rw [List.forall₂_map_left_iff, List.forall₂_map_right_iff]
      exact hnarrowed.imp fun _ _ h => ⟨rfl, h⟩

/-! ### Rows -/

/-- The rows of the history without a filter are those of some tables, and with a
filter those of the tables cut down. -/
theorem projectHistory_none (he : e.store = DirectoryStore.store chunkSize) {paths : List String}
    {tags : Option TagFilter} {rows : Rows} {s t : EngineState DirectoryStore}
    (h : outcome (e.projectHistory paths tags none) s = (.ok rows, t)) :
    ∃ tables, rows = .ofTables tables none ∧ ∀ f : Filter, f.ranges ≠ [] → ∃ tables',
      Rows.Narrowed f.ranges tables tables' ∧
        outcome (e.projectHistory paths tags (some f)) s =
          (.ok (.ofTables tables' (some f)), t) := by
  unfold projectHistory at h
  split at h
  · next htags =>
    -- There are no tags in a history, and so a tag filter finds nothing there.
    cases h
    refine ⟨[], rfl, fun f _ => ⟨[], .nil, ?_⟩⟩
    rw [projectHistory, if_pos htags]
    rfl
  · next htags =>
    split at h
    · next root hroot =>
      simp only [Filter.reach, List.isEmpty_cons, Bool.false_eq_true, if_false] at h
      obtain ⟨targets, s', hresolve, h⟩ := outcome_bind_eq_ok_iff.mp h
      obtain ⟨tables, t', hread, h⟩ := outcome_bind_eq_ok_iff.mp h
      cases h
      refine ⟨tables, rfl, fun f hf => ?_⟩
      obtain ⟨tables', hread', hnarrowed⟩ := readAll_narrowed he f.ranges hread
      refine ⟨tables', hnarrowed, ?_⟩
      rw [projectHistory, if_neg htags, hroot]
      simp only [Filter.reach, List.isEmpty_eq_false_iff.mpr hf, Bool.false_eq_true, if_false]
      exact outcome_bind_eq_ok_iff.mpr ⟨targets, s', hresolve,
        outcome_bind_eq_ok_iff.mpr ⟨tables', t, hread', rfl⟩⟩
    · cases h

/-- The rows without a filter are those of some tables, and with a filter those of
the tables cut down. -/
theorem project_none (he : e.store = DirectoryStore.store chunkSize) {paths : List String}
    {tags : Option TagFilter} {unit : String} {isHistory : Bool} {rows : Rows}
    {s t : EngineState DirectoryStore}
    (h : outcome (e.project paths tags none unit isHistory) s = (.ok rows, t)) :
    ∃ tables, rows = .ofTables tables none ∧ ∀ f : Filter, f.ranges ≠ [] → ∃ tables',
      Rows.Narrowed f.ranges tables tables' ∧
        outcome (e.project paths tags (some f) unit isHistory) s =
          (.ok (.ofTables tables' (some f)), t) := by
  unfold project at h
  obtain ⟨_, s₁, hopen, h⟩ := outcome_bind_eq_ok_iff.mp h
  cases isHistory with
  | true =>
    simp only [if_true] at h
    obtain ⟨tables, hrows, hfilter⟩ := projectHistory_none he h
    refine ⟨tables, hrows, fun f hf => ?_⟩
    obtain ⟨tables', hnarrowed, hrun⟩ := hfilter f hf
    exact ⟨tables', hnarrowed, outcome_bind_eq_ok_iff.mpr ⟨(), s₁, hopen, by simpa using hrun⟩⟩
  | false =>
    simp only [Bool.false_eq_true, if_false, Filter.reach, List.isEmpty_cons] at h
    obtain ⟨root, s₂, hroot, h⟩ := outcome_bind_eq_ok_iff.mp h
    obtain ⟨base, s₃, hbase, h⟩ := outcome_bind_eq_ok_iff.mp h
    obtain ⟨targets, s₄, htargets, h⟩ := outcome_bind_eq_ok_iff.mp h
    obtain ⟨tables, s₅, hread, h⟩ := outcome_bind_eq_ok_iff.mp h
    cases h
    -- Up to the tables both projections do the same.
    obtain ⟨t', hall, rfl⟩ := outcome_guarded_eq_ok_iff.mp hread
    refine ⟨tables, rfl, fun f hf => ?_⟩
    obtain ⟨tables', hall', hnarrowed⟩ := readAll_narrowed he f.ranges hall
    refine ⟨tables', hnarrowed, outcome_bind_eq_ok_iff.mpr ⟨(), s₁, hopen, ?_⟩⟩
    simp only [Bool.false_eq_true, if_false, Filter.reach, List.isEmpty_eq_false_iff.mpr hf]
    exact outcome_bind_eq_ok_iff.mpr ⟨root, s₂, hroot,
      outcome_bind_eq_ok_iff.mpr ⟨base, s₃, hbase,
        outcome_bind_eq_ok_iff.mpr ⟨targets, s₄, htargets,
          outcome_bind_eq_ok_iff.mpr ⟨tables', _,
            outcome_guarded_eq_ok_iff.mpr ⟨t', hall', rfl⟩, rfl⟩⟩⟩⟩

/-- A filter that reaches no key finds nothing, wherever a projection without it
succeeds. -/
theorem project_of_ranges_eq_nil {paths : List String} {tags : Option TagFilter} {unit : String}
    {isHistory : Bool} {rows : Rows} {s t : EngineState DirectoryStore}
    (h : outcome (e.project paths tags none unit isHistory) s = (.ok rows, t)) {f : Filter}
    (hf : f.ranges = []) :
    outcome (e.project paths tags (some f) unit isHistory) s = (.ok .empty, s) := by
  unfold project at h ⊢
  obtain ⟨_, s₁, hopen, h⟩ := outcome_bind_eq_ok_iff.mp h
  obtain rfl := (outcome_requireOpen_eq_ok_iff.mp hopen).2
  refine outcome_bind_eq_ok_iff.mpr ⟨(), s, hopen, ?_⟩
  cases isHistory with
  | false => simp [Filter.reach, hf]
  | true =>
    simp only [if_true, projectHistory] at h ⊢
    split at h
    · next htags => rw [if_pos htags, outcome_pure]
    · next htags =>
      rw [if_neg htags]
      split at h
      · simp [Filter.reach, hf]
      · cases h

/-- **Reading only the keys that a filter can reach** never changes the rows of a
projection: they are the rows of the projection without the filter that the filter
accepts, in ascending order of their keys. The columns are the same, unless the
filter reaches no key at all; then there are none. -/
theorem project_filter (he : e.store = DirectoryStore.store chunkSize) {paths : List String}
    {tags : Option TagFilter} {unit : String} {isHistory : Bool} {rows : Rows}
    {s : EngineState DirectoryStore}
    (h : (outcome (e.project paths tags none unit isHistory) s).1 = .ok rows) (f : Filter) :
    (∃ found, (outcome (e.project paths tags (some f) unit isHistory) s).1 = .ok found ∧
      found.rows = rows.rows.filter (fun r => f.accepts (r.forFilter rows.header)) ∧
        found.header = if f.ranges = [] then [] else rows.header) ∧
      rows.rows.Pairwise fun a b => a.key < b.key := by
  obtain ⟨t, h⟩ : ∃ t, outcome (e.project paths tags none unit isHistory) s = (.ok rows, t) :=
    ⟨_, Prod.ext h rfl⟩
  obtain ⟨tables, rfl, hfilter⟩ := project_none he h
  refine ⟨?_, Rows.pairwise_merge _⟩
  by_cases hf : f.ranges = []
  · refine ⟨.empty, by rw [project_of_ranges_eq_nil h hf], ?_, by rw [if_pos hf]; rfl⟩
    -- Every row has a key that some range could hold, so the filter accepts none.
    obtain ⟨tables', hnarrowed, -⟩ := hfilter (.const true) (by simp [Filter.ranges])
    refine (List.filter_eq_nil_iff.mpr fun r hr haccepts => ?_).symm
    have hkey : (r.forFilter (Rows.ofTables tables none).header).key < Key.top :=
      hnarrowed.key_lt_top hr
    have hreached := Filter.anyContains_ranges_of_accepts hkey haccepts
    rw [hf] at hreached
    cases hreached
  · obtain ⟨tables', hnarrowed, hrun⟩ := hfilter f hf
    rw [hrun, Rows.ofTables_narrowed hnarrowed, if_neg hf]
    exact ⟨_, rfl, rfl, rfl⟩

/-- A unit with one series, of which one record has a key that no range holds. -/
def oneSeries : EngineState DirectoryStore where
  store :=
    { disk := ((Disk.empty.put ["d"] .dir).put ["d", "u"] .dir).put ["d", "u", "s"] <| .file
        (Document.mk .long .empty
          (.ofList [(Key.top, .long 30), (1, .long 10), (2, .long 20)])).bytes }

theorem project_filter_oneSeries :
    let e : Engine DirectoryStore := ⟨⟨some ⟨"/d"⟩, none⟩, false, DirectoryStore.store 4⟩
    let f : Filter := .and [.key .ge 1, .cell "s" .gt (.long 15)]
    (outcome (e.project ["s"] none none "u" false) oneSeries).1 =
        .ok ⟨[⟨"s", .long, .empty⟩], [⟨1, [some (.long 10)]⟩, ⟨2, [some (.long 20)]⟩]⟩ ∧
      ∃ found, (outcome (e.project ["s"] none (some f) "u" false) oneSeries).1 = .ok found ∧
        found.rows = [⟨2, [some (.long 20)]⟩] ∧ found.header = [⟨"s", .long, .empty⟩] := by
  intro e f
  have hall : (outcome (e.project ["s"] none none "u" false) oneSeries).1 =
      .ok ⟨[⟨"s", .long, .empty⟩], [⟨1, [some (.long 10)]⟩, ⟨2, [some (.long 20)]⟩]⟩ := by
    decide +kernel
  have he : e.store = DirectoryStore.store 4 := rfl
  obtain ⟨⟨found, hfound, hrows, hheader⟩, -⟩ := project_filter he hall f
  refine ⟨hall, found, hfound, hrows.trans (by decide +kernel), hheader.trans (by decide +kernel)⟩

end KeyedSeries.Engine

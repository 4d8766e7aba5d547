import KeyedSeries.Proofs.Engine.Asked
import KeyedSeries.Proofs.Engine.Revision
import KeyedSeries.Proofs.Filter.OnKeys

/-!
# Removals by the ranges of a filter

A removal takes ranges of keys, and a filter that compares keys gives them. Where the filter
accepts some key, **a removal by its ranges leaves of every series that is asked for the records
whose keys are not accepted, and all other series as they are**. Where it accepts none it has no
ranges, and a removal without ranges is one of whole series: those that are asked for go, and
with the path `*` all of the unit. Both are said in `KeyedSeries.Engine.files_of_delete_ranges`.
So a filter that accepts nothing takes more than one that accepts a key
(`KeyedSeries.Engine.removed_by_contradiction`).
-/

namespace KeyedSeries

open Disk FilePath

/-- A document without the records whose keys a filter accepts. -/
def Document.withoutAccepted (doc : Document) (f : Filter) : Document :=
  { doc with records := doc.records.filter fun k _ => !f.acceptsKey k }

namespace Engine

variable {e : Engine DirectoryStore} {s s' : EngineState DirectoryStore} {root : Place}
  {unit : String} {paths : List String} {ranges : List KeyRange} {tags : Option TagFilter}
  {R : Option Bytes → Option Bytes → Prop}

/-! ### Removals that succeed -/

/-- What a removal does to the files of series: those that paths ask for are revised, and the
others stay. -/
structure Revised (R : Option Bytes → Option Bytes → Prop) (d d' : Disk) (base : Place)
    (paths : List String) : Prop where
  /-- Links do not come into being. -/
  isPlainTree : d'.IsPlainTree
  /-- The series that are asked for are revised. -/
  asked : ∀ names, IsSeriesName names → addresses paths names = true →
    R (d.fileAt? (base ++ names)) (d'.fileAt? (base ++ names))
  /-- Other files stay, apart from hidden ones. -/
  others : ∀ r, DirectoryStore.IsShown r →
    (∀ names, addresses paths names = true → r ≠ base ++ names) → d'.fileAt? r = d.fileAt? r

/-- Work on the files that are found revises the series that are asked for. -/
theorem revised_of_onEach {work : FilePath → Action DirectoryStore Unit}
    (hwork : DirectoryStore.Revises R work) (hnone : R none none) {base : Place}
    {places : List Place} {t t' : DirectoryStore} (ht : t.disk.IsPlainTree)
    (hlocated : Located t.disk base paths places)
    (hrun : outcome (onEach work (places.map ofPlace)) t = (.ok (), t')) :
    Revised R t.disk t'.disk base paths := by
  obtain ⟨ht', hall, hothers⟩ := DirectoryStore.files_of_onEach hwork
    (fun q hq => (hlocated.sound q hq).1) hlocated.nodup ht hrun
  refine ⟨ht', fun names hname hasked => ?_, fun r hr hnot => hothers r hr fun hmem => ?_⟩
  · by_cases hmem : base ++ names ∈ places
    · exact hall _ hmem
    · -- What is asked for and not found is not there.
      have hthere : t.disk.fileAt? (base ++ names) = none := by
        rw [← Option.not_isSome_iff_eq_none]
        exact fun hthere => hmem (hlocated.complete names hname hasked hthere)
      rwa [hothers _ (hname.isShown base) hmem, hthere]
  · obtain ⟨-, names, hasked, heq⟩ := hlocated.sound r hmem
    exact hnot names hasked heq

/-- **A removal that succeeds** clears the unit, or it goes through the files that were
found. -/
theorem outcome_delete_eq_ok (h : e.WorksOn s root)
    (hrun : outcome (e.delete paths ranges tags unit) s = (.ok (), s')) :
    FilePath.isEntryName unit = true ∧
      if clearsUnit paths ranges tags then
        s'.store.disk = (DirectoryStore.erase s.store.disk (ofPlace (root ++ [unit]))).2
      else ∃ places, Located s.store.disk (root ++ [unit]) paths places ∧
        outcome (onEach (fun file => if ranges.isEmpty then e.store.removeSeries [file] tags
          else e.trimAll tags file ranges) (places.map ofPlace)) s.store = (.ok (), s'.store) := by
  obtain ⟨chunkSize, hstore⟩ := h.store
  rw [delete] at hrun
  simp only [outcome_bind_eq_ok_iff, outcome_requireOpen_eq_ok_iff, outcome_known,
    Prod.mk.injEq] at hrun
  obtain ⟨-, _, ⟨-, rfl⟩, path, _, ⟨hpath, rfl⟩, base, _, ⟨hbase, rfl⟩, hrun⟩ := hrun
  -- The directory of the unit is one in the managed root.
  obtain rfl := writableRoot_eq_ok h.managed hpath
  obtain ⟨hunit, rfl⟩ := (Location.unitDir_eq_ok_iff h.isEntryName).mp hbase
  have hnames := h.isEntryName_unit hunit
  refine ⟨hunit, ?_⟩
  split
  · next hclear =>
    rw [if_pos hclear] at hrun
    simp only [outcome_guarded_eq_ok_iff, outcome_callFor_eq_ok_iff, hstore] at hrun
    obtain ⟨_, ⟨t, hremove, rfl⟩, rfl⟩ := hrun
    obtain ⟨-, d, herase, rfl⟩ := DirectoryStore.outcome_change_eq_ok_iff
      (f := (DirectoryStore.erase · (ofPlace (root ++ [unit])))) |>.mp hremove
    show d = _
    rw [herase]
  · next hclear =>
    rw [if_neg hclear] at hrun
    simp only [outcome_bind_eq_ok_iff, outcome_guarded_eq_ok_iff, outcome_callFor_eq_ok_iff] at hrun
    obtain ⟨targets, _, ⟨_, hresolve, rfl⟩, _, ⟨t, hall, rfl⟩, rfl⟩ := hrun
    obtain ⟨rfl, places, hfiles, hlocated⟩ :=
      located_of_resolve hstore (by exact h.isPlainTree) hnames hresolve
    rw [hfiles] at hall
    exact ⟨places, hlocated, hall⟩

/-- **A removal of records** leaves of the series that are asked for the other records. -/
theorem revised_of_trim (h : e.WorksOn s root) (hranges : ranges ≠ [])
    (hrun : outcome (e.delete paths ranges tags unit) s = (.ok (), s')) :
    Revised (DirectoryStore.Trimmed tags ranges) s.store.disk s'.store.disk (root ++ [unit])
      paths := by
  obtain ⟨chunkSize, hstore⟩ := h.store
  have hfull : ranges.isEmpty = false := by simpa using hranges
  obtain ⟨-, hdeleted⟩ := outcome_delete_eq_ok h hrun
  rw [if_neg (by simp [clearsUnit, hfull])] at hdeleted
  obtain ⟨places, hlocated, hall⟩ := hdeleted
  simp only [hfull, Bool.false_eq_true, if_false] at hall
  exact revised_of_onEach (DirectoryStore.revises_trimAll hstore tags ranges)
    ⟨fun _ => rfl, nofun⟩ h.isPlainTree hlocated hall

/-- **A removal without ranges** takes the series that are asked for, and with the path that
matches all names everything in the unit. -/
theorem fileAt?_of_remove (h : e.WorksOn s root)
    (hrun : outcome (e.delete paths [] none unit) s = (.ok (), s')) :
    s'.store.disk.IsPlainTree ∧
      (∀ names, IsSeriesName names → s'.store.disk.fileAt? (root ++ [unit] ++ names) =
        if paths = [String.singleton Glob.star] ∨ addresses paths names = true then none
        else s.store.disk.fileAt? (root ++ [unit] ++ names)) ∧
      ∀ r, DirectoryStore.IsShown r → ¬root ++ [unit] <+: r →
        s'.store.disk.fileAt? r = s.store.disk.fileAt? r := by
  obtain ⟨chunkSize, hstore⟩ := h.store
  obtain ⟨hunit, hdeleted⟩ := outcome_delete_eq_ok h hrun
  have hnames := h.isEntryName_unit hunit
  have hclears : clearsUnit paths [] none = true ↔ paths = [String.singleton Glob.star] := by
    simp [clearsUnit]
  split at hdeleted
  · next hclear =>
    rw [hdeleted]
    refine ⟨DirectoryStore.isPlainTree_erase h.isPlainTree hnames, fun names _ => ?_,
      fun r _ hr => ?_⟩
    · rw [if_pos (.inl (hclears.mp hclear)), fileAt?,
        DirectoryStore.entry?_erase h.isPlainTree hnames, if_pos (List.prefix_append _ _)]
    · rw [fileAt?, DirectoryStore.entry?_erase h.isPlainTree hnames, if_neg hr, fileAt?]
  · next hclear =>
    obtain ⟨places, hlocated, hall⟩ := hdeleted
    simp only [List.isEmpty_nil, if_true, hstore] at hall
    have hrevised := revised_of_onEach (DirectoryStore.revises_removeSeries chunkSize) rfl
      h.isPlainTree hlocated hall
    refine ⟨hrevised.isPlainTree, fun names hname => ?_, fun r hr hout => ?_⟩
    · rw [hclears] at hclear
      simp only [hclear, false_or]
      split
      · next hasked => exact hrevised.asked names hname hasked
      · next hasked =>
        refine hrevised.others _ (hname.isShown _) fun names' hasked' heq => hasked ?_
        rwa [List.append_cancel_left heq]
    · exact hrevised.others r hr fun names _ heq => hout (heq ▸ List.prefix_append _ _)

/-! ### Ranges of a filter -/

/-- Trimming by the ranges of a filter removes the records whose keys it accepts. -/
theorem trimming_ranges {f : Filter} (hf : f.OnKeys) {doc : Document} (hdoc : doc.IsStorable) :
    Catalog.trimming none f.ranges (some doc) = some (doc.withoutAccepted f) := by
  have hsame : (doc.records.filter fun k _ => !KeyRange.anyContains f.ranges k) =
      doc.records.filter fun k _ => !f.acceptsKey k := by
    refine OrderedMap.ext_get? fun k => ?_
    rw [OrderedMap.get?_filter_keys, OrderedMap.get?_filter_keys]
    cases hv : doc.records.get? k with
    | none => simp
    | some v =>
      -- The ranges hold all keys that are accepted but the largest number, which is no key.
      have hkey : KeyRange.anyContains f.ranges k = f.acceptsKey k := by
        rw [Bool.eq_iff_iff, Filter.anyContains_ranges_iff hf]
        exact and_iff_right (hdoc.lt_top hv)
      rw [hkey]
  rw [Catalog.trimming, Option.map_some, hsame]
  rfl

/-- **A removal by the ranges of a filter.** Where the filter accepts some key, the series
that are asked for are left with the records whose keys it does not accept, and the others as they
are. Where it accepts none there are no ranges, and so the series that are asked for go, and with
the path that matches all names everything in the unit. Outside of the unit no series changes. -/
theorem files_of_delete_ranges {f : Filter} (h : e.WorksOn s root) (hf : f.OnKeys)
    (hdocs : ∀ names doc, s.store.disk.docAt? (root ++ [unit] ++ names) = some doc →
      doc.IsStorable)
    (hrun : outcome (e.delete paths f.ranges none unit) s = (.ok (), s')) :
    s'.store.disk.IsPlainTree ∧
      ((∃ k, k < Key.top ∧ f.acceptsKey k = true) → ∀ names, IsSeriesName names →
        if addresses paths names then
          s'.store.disk.docAt? (root ++ [unit] ++ names) =
              (s.store.disk.docAt? (root ++ [unit] ++ names)).map (·.withoutAccepted f) ∧
            (s.store.disk.docAt? (root ++ [unit] ++ names) = none →
              s'.store.disk.fileAt? (root ++ [unit] ++ names) =
                s.store.disk.fileAt? (root ++ [unit] ++ names))
        else s'.store.disk.fileAt? (root ++ [unit] ++ names) =
          s.store.disk.fileAt? (root ++ [unit] ++ names)) ∧
      ((∀ k, k < Key.top → f.acceptsKey k = false) → ∀ names, IsSeriesName names →
        s'.store.disk.fileAt? (root ++ [unit] ++ names) =
          if paths = [String.singleton Glob.star] ∨ addresses paths names = true then none
          else s.store.disk.fileAt? (root ++ [unit] ++ names)) ∧
      ∀ r, DirectoryStore.IsShown r → ¬root ++ [unit] <+: r →
        s'.store.disk.fileAt? r = s.store.disk.fileAt? r := by
  by_cases hranges : f.ranges = []
  · have hnone := (Filter.ranges_eq_nil_iff hf).mp hranges
    rw [hranges] at hrun
    obtain ⟨ht', hfiles, hout⟩ := fileAt?_of_remove h hrun
    refine ⟨ht', ?_, fun _ => hfiles, hout⟩
    rintro ⟨k, hk, haccepts⟩
    rw [hnone k hk] at haccepts
    cases haccepts
  · have hrevised := revised_of_trim h hranges hrun
    refine ⟨hrevised.isPlainTree, fun _ names hname => ?_, fun hnone => ?_, fun r hr hout => ?_⟩
    · split
      · next hasked =>
        have htrimmed := hrevised.asked names hname hasked
        refine ⟨?_, htrimmed.other⟩
        cases hdoc : s.store.disk.docAt? (root ++ [unit] ++ names) with
        | none => rw [docAt?, htrimmed.other hdoc, ← docAt?, hdoc, Option.map_none]
        | some doc =>
          have hstorable := hdocs names doc hdoc
          exact (htrimmed.doc doc hdoc hstorable).trans (trimming_ranges hf hstorable)
      · next hasked =>
        refine hrevised.others _ (hname.isShown _) fun names' hasked' heq => hasked ?_
        rwa [List.append_cancel_left heq]
    · exact absurd ((Filter.ranges_eq_nil_iff hf).mpr hnone) hranges
    · exact hrevised.others r hr fun names _ heq => hout (heq ▸ List.prefix_append _ _)

/-- A document with records under two keys. -/
def twoKeys : Document := ⟨.long, .empty, .ofList [(1, .long 5), (2, .long 6)]⟩

/-- A disk with two series in the unit `u` of `/d`. -/
def twoSeries : Disk :=
  ⟨.ofList [(["d"], .dir), (["d", "u"], .dir), (["d", "u", "a"], .file twoKeys.bytes),
    (["d", "u", "b"], .file twoKeys.bytes)]⟩

theorem worksOn_twoSeries : ofDirectory.WorksOn (.start twoSeries) ["d"] where
  store := ⟨1, rfl⟩
  managed := by decide
  isEntryName := by decide
  isPlainTree := by decide +kernel

theorem isStorable_twoKeys : twoKeys.IsStorable := by
  have hmem : ∀ {k v}, twoKeys.records.get? k = some v →
      (k = 1 ∧ v = .long 5) ∨ (k = 2 ∧ v = .long 6) := by
    intro k v hv
    simpa using OrderedMap.mem_of_get?_ofList hv
  constructor
  · intro k v hv
    rcases hmem hv with ⟨-, rfl⟩ | ⟨-, rfl⟩ <;> trivial
  · intro k v hv
    rcases hmem hv with ⟨rfl, -⟩ | ⟨rfl, -⟩ <;> decide

/-- Both series have the document. -/
theorem eq_twoKeys_of_docAt? {q : Place} {doc : Document} (h : twoSeries.docAt? q = some doc) :
    doc = twoKeys := by
  obtain ⟨content, hcontent, hdoc⟩ := Option.bind_eq_some_iff.mp h
  have hentry := fileAt?_eq_some_iff.mp hcontent
  rcases eq_or_ne q [] with rfl | hq
  · cases hentry
  · rw [entry?_of_ne_nil _ hq] at hentry
    have hmem := OrderedMap.mem_of_get?_ofList hentry
    obtain rfl : content = twoKeys.bytes := by
      simp only [List.mem_cons, Prod.mk.injEq, reduceCtorEq, and_false, Entry.file.injEq,
        List.not_mem_nil, or_false, false_or] at hmem
      rcases hmem with ⟨-, h⟩ | ⟨-, h⟩ <;> exact h
    rw [Document.ofBytes?_bytes isStorable_twoKeys.isExact] at hdoc
    exact (Option.some.inj hdoc).symm

/-- The records from the second key on are removed from one series. -/
theorem files_of_delete_fromSecond :
    let f : Filter := .key .ge 2
    let s := EngineState.start twoSeries
    f.OnKeys ∧ ∃ s', outcome (ofDirectory.delete ["a"] f.ranges none "u") s = (.ok (), s') ∧
      s'.store.disk.docAt? ["d", "u", "a"] = some (twoKeys.withoutAccepted f) ∧
      s'.store.disk.fileAt? ["d", "u", "b"] = some twoKeys.bytes := by
  intro f s
  have hf : f.OnKeys := .key 2 (by decide)
  have hrun : (outcome (ofDirectory.delete ["a"] f.ranges none "u") s).1 = .ok () := by
    decide +kernel
  obtain ⟨-, hfiles, -, -⟩ := files_of_delete_ranges (s := s) worksOn_twoSeries hf
    (fun _ _ hdoc => eq_twoKeys_of_docAt? hdoc ▸ isStorable_twoKeys) (outcome_of_fst hrun)
  have haccepts : ∃ k, k < Key.top ∧ f.acceptsKey k = true := ⟨2, by decide, by decide⟩
  have ha := hfiles haccepts ["a"] ⟨by decide, by decide⟩
  have hb := hfiles haccepts ["b"] ⟨by decide, by decide⟩
  rw [if_pos (by decide)] at ha
  rw [if_neg (by decide)] at hb
  have hold : s.store.disk.docAt? (["d"] ++ ["u"] ++ ["a"]) = some twoKeys := by decide +kernel
  have hother : s.store.disk.fileAt? (["d"] ++ ["u"] ++ ["b"]) = some twoKeys.bytes := by
    decide +kernel
  rw [hold] at ha
  rw [hother] at hb
  exact ⟨hf, _, outcome_of_fst hrun, ha.1, hb⟩

/-- **A filter that accepts no key takes the whole series**, records that it does not accept
and all. -/
theorem removed_by_contradiction :
    let f : Filter := .and [.key .gt 5, .key .lt 3]
    let s := EngineState.start twoSeries
    let s' := (outcome (ofDirectory.delete ["a"] f.ranges none "u") s).2
    f.OnKeys ∧ twoSeries.IsPlainTree ∧ twoSeries.docAt? ["d", "u", "a"] = some twoKeys ∧
      f.acceptsKey 1 = false ∧ f.acceptsKey 2 = false ∧
      (outcome (ofDirectory.delete ["a"] f.ranges none "u") s).1 = .ok () ∧
      s'.store.disk.fileAt? ["d", "u", "a"] = none := by
  intro f s s'
  have hf : f.OnKeys := by
    refine .and (List.forall_mem_cons.mpr ⟨.key 5 (by decide), List.forall_mem_cons.mpr
      ⟨.key 3 (by decide), nofun⟩⟩)
  exact ⟨hf, by decide +kernel⟩

end Engine

end KeyedSeries

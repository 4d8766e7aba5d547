import KeyedSeries.Proofs.Engine.Keeps
import KeyedSeries.Proofs.Store.Confined

/-!
# Files that are worked on one by one

A removal goes through files, and what it does to one of them is said by a relation of the
content before and after it (`KeyedSeries.DirectoryStore.Revises`). **If the work on all
files succeeds, the content of each of them is related so, and no other file has changed**,
apart from hidden ones (`KeyedSeries.DirectoryStore.files_of_onEach`). A series that is removed
has no file afterwards; one that is trimmed has a document without the records in the ranges
(`KeyedSeries.DirectoryStore.Trimmed`), as long as its values are written exactly.
-/

namespace KeyedSeries

open Disk FilePath

namespace DirectoryStore

variable {d d' : Disk} {q : Place} {name : String} {file : FilePath}

/-! ### Removing a series -/

/-- A file that is erased is gone, and no other file is. -/
theorem fileAt?_erase (ht : d.IsPlainTree) (hq : ∀ n ∈ q ++ [name], isEntryName n = true)
    (hdir : d.isDir (ofPlace (q ++ [name])) = false) (r : Place) :
    (erase d (ofPlace (q ++ [name]))).2.fileAt? r =
      if r = q ++ [name] then none else d.fileAt? r := by
  rw [fileAt?, entry?_erase ht hq]
  by_cases hr : r = q ++ [name]
  · rw [if_pos hr, if_pos (hr ▸ List.prefix_refl _)]
  · rw [if_neg hr]
    split
    · next content hcontent =>
      rw [Option.ite_none_left_eq_some] at hcontent
      rw [fileAt?_eq_some_iff.mpr hcontent.2]
    · next hnone =>
      rw [eq_comm, Option.eq_none_iff_forall_ne_some]
      intro content hcontent
      have hentry := fileAt?_eq_some_iff.mp hcontent
      refine hnone content ((if_neg fun hpre => ?_).trans hentry)
      -- A file below would make it a directory.
      have hplace := ht.dir_of_prefix hpre (Ne.symm hr) hentry
      have hway := ht.passable_of_some hplace fun _ heq => Entry.noConfusion heq
      rw [isDir_ofPlace ht.toIsTree (ht.fits hplace) hway, hplace] at hdir
      cases hdir

/-- **A series that is removed** has no file any more, and no other file has changed. -/
theorem files_of_removeOne (ht : d.IsPlainTree) (hq : ∀ n ∈ q ++ [name], isEntryName n = true)
    (h : removeOne d none (ofPlace (q ++ [name])) = (.ok (), d')) :
    d'.IsPlainTree ∧ ∀ r, d'.fileAt? r = if r = q ++ [name] then none else d.fileAt? r := by
  rw [removeOne] at h
  split at h
  · next hdir =>
    -- A directory is no series.
    cases h
    obtain ⟨place, hplace⟩ := Option.isSome_iff_exists.mp hdir
    refine ⟨ht, fun r => ?_⟩
    split
    · next hr => rw [hr, fileAt?, (dirPlace?_eq_some ht hq hplace).2]
    · rfl
  · next hdir =>
    obtain rfl : d' = (erase d (ofPlace (q ++ [name]))).2 := by rw [h]
    exact ⟨isPlainTree_erase ht hq, fileAt?_erase ht hq (by simpa using hdir)⟩

/-! ### Trimming a series -/

/-- What becomes of the content of a file when the records in ranges are removed: a document
is without them, and anything else stays. -/
structure Trimmed (tags : Option TagFilter) (ranges : List KeyRange) (old new : Option Bytes) :
    Prop where
  /-- What is no document stays. -/
  other : old.bind Document.ofBytes? = none → new = old
  /-- The document has the other records. -/
  doc : ∀ doc, old.bind Document.ofBytes? = some doc → doc.IsStorable →
    new.bind Document.ofBytes? = Catalog.trimming tags ranges (some doc)

/-- No ranges leave all records. -/
theorem Trimmed.nil (tags : Option TagFilter) (content : Option Bytes) :
    Trimmed tags [] content content :=
  ⟨fun _ => rfl, fun _ hdoc _ => hdoc.trans (Catalog.trimming_nil tags _).symm⟩

/-- The records in the first range are removed, and then those in the others. -/
theorem Trimmed.cons {tags : Option TagFilter} {range : KeyRange} {ranges : List KeyRange}
    {old mid new : Option Bytes} (h : Trimmed tags [range] old mid)
    (h' : Trimmed tags ranges mid new) : Trimmed tags (range :: ranges) old new := by
  refine ⟨fun hold => ?_, fun doc hdoc hstorable => ?_⟩
  · have hmid := h.other hold
    rw [h'.other (hmid ▸ hold), hmid]
  · have hmid := h.doc doc hdoc hstorable
    rw [Catalog.trimming_cons]
    simp only [Catalog.trimming, Option.map_some] at hmid ⊢
    rw [h'.doc _ hmid]
    · rfl
    · split
      · exact hstorable.filter fun key => !KeyRange.anyContains [range] key
      · exact hstorable

/-- **A series that is trimmed** has the other records, and no other file has changed, apart
from hidden ones. -/
theorem files_of_trimOne (ht : d.IsPlainTree) (hq : ∀ n ∈ q ++ [name], isEntryName n = true)
    {tags : Option TagFilter} {range : KeyRange}
    (h : trimOne d tags range (ofPlace (q ++ [name])) = (.ok (), d')) :
    d'.IsPlainTree ∧ Trimmed tags [range] (d.fileAt? (q ++ [name])) (d'.fileAt? (q ++ [name])) ∧
      ∀ r, r ≠ q ++ [draftName name] → r ≠ q ++ [name] → d'.fileAt? r = d.fileAt? r := by
  rw [trimOne] at h
  split at h
  · cases h
  · next hload =>
    cases h
    have hnone := (load_eq_ok ht hq hload).2 rfl
    exact ⟨ht, ⟨fun _ => rfl, fun doc hdoc => by rw [hnone] at hdoc; cases hdoc⟩, fun _ _ _ => rfl⟩
  · next doc hload =>
    have hdoc := (load_eq_ok ht hq hload).1
    simp only at h
    split at h
    · next htrim =>
      rw [Bool.and_eq_true] at htrim
      obtain ⟨ht', hfiles⟩ := files_of_save ht hq h
      refine ⟨ht', ⟨fun hnone => ?_, fun doc' hdoc' hstorable => ?_⟩, fun r hr hne => ?_⟩
      · rw [docAt?, hnone] at hdoc
        cases hdoc
      · obtain rfl : doc' = doc := Option.some.inj (hdoc'.symm.trans hdoc)
        rw [hfiles _ (by simpa using (draftName_ne name).symm), if_pos rfl, Option.bind_some,
          Document.ofBytes?_bytes (hstorable.filter fun key => !range.contains key).isExact]
        simp [Catalog.trimming, htrim.1]
      · rw [hfiles r hr, if_neg hne]
    · next hkept =>
      -- The tags are not accepted, or no record is in the range.
      cases h
      refine ⟨ht, ⟨fun _ => rfl, fun doc' hdoc' _ => ?_⟩, fun _ _ _ => rfl⟩
      obtain rfl : doc' = doc := Option.some.inj (hdoc'.symm.trans hdoc)
      rw [hdoc']
      cases haccepts : TagFilter.accepts tags doc'.tags with
      | false => simp [Catalog.trimming, haccepts]
      | true =>
        have hsame : (doc'.records.filter fun key _ => !range.contains key) = doc'.records :=
          OrderedMap.filter_eq_self_of_size (by simpa [haccepts] using hkept)
        simp [Catalog.trimming, haccepts, hsame]

/-! ### Work on files -/

/-- Work on one file that relates the content before and after it, if it succeeds, and that
changes no other file, apart from hidden ones. -/
def Revises (R : Option Bytes → Option Bytes → Prop)
    (work : FilePath → Action DirectoryStore Unit) : Prop :=
  ∀ (q : Place) (s t : DirectoryStore), IsFilePlace q → s.disk.IsPlainTree →
    outcome (work (ofPlace q)) s = (.ok (), t) →
      t.disk.IsPlainTree ∧ R (s.disk.fileAt? q) (t.disk.fileAt? q) ∧
        ∀ r, IsShown r → r ≠ q → t.disk.fileAt? r = s.disk.fileAt? r

/-- A place of a file is that of a name in a directory. -/
theorem IsFilePlace.exists_eq_concat (h : IsFilePlace q) : ∃ p name, q = p ++ [name] :=
  (List.eq_nil_or_concat' q).resolve_left h.ne_nil

/-- A success with a list of one file is one with the file. -/
theorem outcome_change_singleton_eq_ok_iff {f : Disk → FilePath → Except Failure Unit × Disk}
    {s t : DirectoryStore} : outcome (change (forAll f · [file])) s = (.ok (), t) ↔
      s.closed = false ∧ ∃ d, f s.disk file = (.ok (), d) ∧ t = { s with disk := d } := by
  simp only [outcome_change_eq_ok_iff, forAll_singleton]

theorem revises_removeSeries (chunkSize : Nat) :
    Revises (fun _ new => new = none) fun file => (store chunkSize).removeSeries [file] none := by
  intro q s t hq ht hrun
  obtain ⟨-, d, hremove, rfl⟩ :=
    (outcome_change_singleton_eq_ok_iff (f := (removeOne · none))).mp hrun
  obtain ⟨p, name, rfl⟩ := hq.exists_eq_concat
  obtain ⟨ht', hfiles⟩ := files_of_removeOne ht hq.isEntryName hremove
  exact ⟨ht', by rw [hfiles, if_pos rfl], fun r _ hr => by rw [hfiles, if_neg hr]⟩

theorem revises_trimAll {e : Engine DirectoryStore} {chunkSize : Nat}
    (hstore : e.store = store chunkSize) (tags : Option TagFilter) (ranges : List KeyRange) :
    Revises (Trimmed tags ranges) fun file => e.trimAll tags file ranges := by
  induction ranges with
  | nil =>
    intro q s t _ ht hrun
    cases hrun
    exact ⟨ht, .nil tags _, fun _ _ _ => rfl⟩
  | cons range rest ih =>
    intro q s t hq ht hrun
    obtain ⟨t', hfirst, hothers⟩ := Engine.outcome_trimAll_cons_eq_ok_iff.mp hrun
    rw [hstore] at hfirst
    obtain ⟨-, d, htrim, rfl⟩ :=
      (outcome_change_singleton_eq_ok_iff (f := (trimOne · tags range))).mp hfirst
    obtain ⟨p, name, rfl⟩ := hq.exists_eq_concat
    obtain ⟨ht₁, htrimmed₁, hfiles₁⟩ := files_of_trimOne ht hq.isEntryName htrim
    obtain ⟨ht', htrimmed, hfiles⟩ := ih _ _ _ hq ht₁ hothers
    refine ⟨ht', htrimmed₁.cons htrimmed, fun r hr hne => ?_⟩
    rw [hfiles r hr hne, hfiles₁ r (fun heq => ?_) hne]
    subst heq
    exact hr.ne_draft _ _ rfl

/-- **Work on several files** revises each of them, and changes no other file, apart from
hidden ones. -/
theorem files_of_onEach {R : Option Bytes → Option Bytes → Prop}
    {work : FilePath → Action DirectoryStore Unit} (h : Revises R work) {places : List Place}
    (hplaces : ∀ q ∈ places, IsFilePlace q) (hnodup : places.Nodup) {s t : DirectoryStore}
    (ht : s.disk.IsPlainTree)
    (hrun : outcome (Engine.onEach work (places.map ofPlace)) s = (.ok (), t)) :
    t.disk.IsPlainTree ∧ (∀ q ∈ places, R (s.disk.fileAt? q) (t.disk.fileAt? q)) ∧
      ∀ r, IsShown r → r ∉ places → t.disk.fileAt? r = s.disk.fileAt? r := by
  induction places generalizing s with
  | nil =>
    cases hrun
    exact ⟨ht, nofun, fun _ _ _ => rfl⟩
  | cons q rest ih =>
    obtain ⟨hq, hrest⟩ := List.forall_mem_cons.mp hplaces
    obtain ⟨hnew, hnodup⟩ := List.nodup_cons.mp hnodup
    obtain ⟨t', hfirst, hothers⟩ := Engine.outcome_onEach_cons_eq_ok_iff.mp hrun
    obtain ⟨ht₁, hrevised, hfiles₁⟩ := h q s t' hq ht hfirst
    obtain ⟨ht', hall, hfiles⟩ := ih hrest hnodup ht₁ hothers
    refine ⟨ht', List.forall_mem_cons.mpr ⟨?_, fun p hp => ?_⟩, fun r hr hnot => ?_⟩
    · rwa [hfiles q hq.isShown hnew]
    · -- The other files were as they are when their turn comes.
      have hother := hall p hp
      rwa [hfiles₁ p (hrest p hp).isShown (ne_of_mem_of_not_mem hp hnew)] at hother
    · obtain ⟨hne, hnot⟩ : r ≠ q ∧ r ∉ rest := by simpa using hnot
      rw [hfiles r hr hnot, hfiles₁ r hr hne]

end DirectoryStore

end KeyedSeries

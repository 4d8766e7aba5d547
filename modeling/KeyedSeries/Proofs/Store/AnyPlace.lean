import KeyedSeries.Proofs.Disk.Blocked
import KeyedSeries.Proofs.Store.Confined

/-!
# Whatever stands at a place

A series may be asked for at any place: there may be a document, a file that is none, a
directory or nothing, and the place may be one that cannot be reached
(`KeyedSeries.Disk.Blocked`). Here it is said **what removing and trimming come to in each
of these cases**, with the failure and with what is left of the disk. Where no file is, they
fail if the place is blocked, and change nothing
(`KeyedSeries.DirectoryStore.untouched_of_noFile`). A document is trimmed if a hidden file
fits beside it (`KeyedSeries.DirectoryStore.trimOne_of_fits`), and otherwise it stays
(`KeyedSeries.DirectoryStore.trimOne_of_longDraft`).
-/

namespace KeyedSeries

open Disk FilePath

/-! ### Documents without some records -/

namespace Document

/-- A document without the records whose keys lie in ranges. -/
def outside (doc : Document) (ranges : List KeyRange) : Document :=
  { doc with records := doc.records.filter fun k _ => !KeyRange.anyContains ranges k }

/-- Whether a document has records whose keys lie in ranges. -/
def hasRecordsIn (doc : Document) (ranges : List KeyRange) : Prop :=
  ∃ k ∈ doc.records.keys, KeyRange.anyContains ranges k = true

variable {doc : Document} {ranges : List KeyRange}

theorem outside_eq_self_of_not (h : ¬doc.hasRecordsIn ranges) : doc.outside ranges = doc := by
  have hsame : (doc.records.filter fun k _ => !KeyRange.anyContains ranges k) = doc.records := by
    refine OrderedMap.ext_get? fun k => ?_
    rw [OrderedMap.get?_filter_keys]
    split
    · rfl
    · next hk =>
      rw [eq_comm, Option.eq_none_iff_forall_ne_some]
      intro v hv
      exact h ⟨k, OrderedMap.mem_keys_iff.mpr ⟨v, hv⟩, by simpa using hk⟩
  rw [outside, hsame]

theorem outside_nil (doc : Document) : doc.outside [] = doc :=
  outside_eq_self_of_not fun ⟨_, _, hk⟩ => absurd hk (by simp)

/-- The records outside of all ranges are those outside of the first one, and then of the
others. -/
theorem outside_cons (doc : Document) (range : KeyRange) (ranges : List KeyRange) :
    doc.outside (range :: ranges) = (doc.outside [range]).outside ranges := by
  simp only [outside, OrderedMap.filter_filter, KeyRange.anyContains_cons,
    KeyRange.anyContains_nil, Bool.or_false, Bool.not_or, Bool.and_comm]

theorem IsExact.outside (h : doc.IsExact) (ranges : List KeyRange) :
    (doc.outside ranges).IsExact := by
  intro k v hv
  rw [Document.outside, OrderedMap.get?_filter_keys] at hv
  split at hv
  · exact h k v hv
  · cases hv

end Document

namespace DirectoryStore

variable {d : Disk} {q : Place} {name : String} {content : Bytes} {doc : Document}
  {tags : Option TagFilter} {range : KeyRange} {kind : IoKind}

/-! ### Where no file is -/

/-- To remove or to trim a series changes nothing, and comes to a result. -/
structure Untouched (d : Disk) (q : Place) (r : Except Failure Unit) : Prop where
  /-- Removing comes to it. -/
  removeOne_eq : ∀ tags, removeOne d tags (ofPlace q) = (r, d)
  /-- So does trimming. -/
  trimOne_eq : ∀ tags range, trimOne d tags range (ofPlace q) = (r, d)

/-- A directory is no series, and it stays. -/
theorem untouched_of_dir (ht : d.IsPlainTree) (hdir : d.entry? q = some .dir) :
    Untouched d q (.ok ()) := by
  have hfits := ht.fits hdir
  have hvacant := ht.vacant_of_dir hdir
  have hisDir : d.isDir (ofPlace q) = true := by
    rw [isDir_ofPlace ht.toIsTree hfits hvacant.passable, hdir]
    rfl
  refine ⟨fun tags => ?_, fun tags range => ?_⟩
  · unfold removeOne
    rw [if_pos hisDir]
  · rw [trimOne, load_of_vacant ht.toIsTree hfits hvacant]

/-- Where nothing is, what loading and erasing come to decides about removing and trimming. -/
theorem untouched_of_none {r : Except Failure Unit} (ht : d.IsPlainTree)
    (hq : ∀ n ∈ q, isEntryName n = true) (hnone : d.entry? q = none)
    (hload : load d (ofPlace q) = r.map fun _ => none) (herase : erase d (ofPlace q) = (r, d)) :
    Untouched d q r := by
  have hisDir := isDir_of_none ht hq hnone
  refine ⟨fun tags => ?_, fun tags range => ?_⟩
  · cases tags with
    | none => simp only [removeOne, hisDir, herase, Bool.false_eq_true, if_false]
    | some f =>
      simp only [removeOne, hisDir, hload, Bool.false_eq_true, if_false]
      cases r <;> rfl
  · rw [trimOne, hload]
    cases r <;> rfl

/-- What is loaded from a place that is blocked is the failure of the walk. -/
theorem load_of_blocked (ht : d.IsPlainTree) (hq : ∀ n ∈ q, isEntryName n = true)
    (hblocked : d.Blocked q kind) : load d (ofPlace q) = .error (.io kind) := by
  have hnone : d.entry? q = none := Option.eq_none_iff_forall_ne_some.mpr fun _ he =>
    not_blocked_of_some ht he kind hblocked
  -- Something that is missing would be no failure, but nothing is blocked for that reason.
  rw [load, isDir_of_none ht hq hnone, Disk.read, locate_of_blocked ht.toIsTree hq hblocked]
  cases hblocked <;> rfl

/-- From a place that is not blocked nothing is loaded, if nothing is there. -/
theorem load_of_free (ht : d.IsPlainTree) (hq : ∀ n ∈ q, isEntryName n = true)
    (hnone : d.entry? q = none) (hfree : ∀ kind, ¬d.Blocked q kind) :
    load d (ofPlace q) = .ok none := by
  rcases locate_of_none ht hq hnone with ⟨kind, hblocked⟩ | ⟨-, hlocate⟩
  · exact absurd hblocked (hfree kind)
  · rw [load, isDir_of_none ht hq hnone, Disk.read]
    rcases hlocate true with h | ⟨place, slash, h⟩ <;> rw [h] <;> rfl

/-- A place that is blocked is not reached. -/
theorem untouched_of_blocked (ht : d.IsPlainTree) (hq : ∀ n ∈ q, isEntryName n = true)
    (hblocked : d.Blocked q kind) : Untouched d q (.error (.io kind)) := by
  have hnone : d.entry? q = none := Option.eq_none_iff_forall_ne_some.mpr fun _ he =>
    not_blocked_of_some ht he kind hblocked
  refine untouched_of_none ht hq hnone (load_of_blocked ht hq hblocked) ?_
  rw [erase, isDir_of_none ht hq hnone, removeFile, locateName, withoutSlashes_ofPlace hq,
    locate_of_blocked ht.toIsTree hq hblocked]
  cases hblocked <;> rfl

/-- **Where no file is**, to remove or to trim a series changes nothing. It succeeds unless the
place is blocked, and then it fails for that reason. -/
theorem untouched_of_noFile (ht : d.IsPlainTree) (hq : ∀ n ∈ q, isEntryName n = true)
    (hnoFile : d.fileAt? q = none) :
    (∃ kind, d.Blocked q kind ∧ Untouched d q (.error (.io kind))) ∨
      (∀ kind, ¬d.Blocked q kind) ∧ Untouched d q (.ok ()) := by
  cases hentry : d.entry? q with
  | some e =>
    refine .inr ⟨not_blocked_of_some ht hentry, untouched_of_dir ht ?_⟩
    cases e with
    | dir => exact hentry
    | file content =>
      rw [fileAt?_eq_some_iff.mpr hentry] at hnoFile
      cases hnoFile
    | link t => exact absurd hentry (ht.noLinks _ _)
  | none =>
    rcases locate_of_none ht hq hentry with ⟨kind, hblocked⟩ | ⟨hfree, hlocate⟩
    · exact .inl ⟨kind, hblocked, untouched_of_blocked ht hq hblocked⟩
    · refine .inr ⟨hfree, untouched_of_none ht hq hentry (load_of_free ht hq hentry hfree) ?_⟩
      rw [erase, isDir_of_none ht hq hentry, removeFile, locateName, withoutSlashes_ofPlace hq]
      rcases hlocate false with h | ⟨place, slash, h⟩ <;> rw [h] <;> rfl

/-! ### Removing a file -/

/-- **A file is removed** if its tags do not matter, or if it can be read and they are
accepted. Otherwise it stays, and it is a failure if it cannot be read. -/
theorem removeOne_of_file (ht : d.IsPlainTree) (hfile : d.fileAt? q = some content) :
    removeOne d tags (ofPlace q) =
      match tags, Document.ofBytes? content with
      | none, _ => (.ok (), d.drop q)
      | some _, none => (.error .unreadable, d)
      | some f, some doc => if f.isMet doc.tags then (.ok (), d.drop q) else (.ok (), d) := by
  have hentry := fileAt?_eq_some_iff.mp hfile
  have hfits := ht.fits hentry
  have hisDir : d.isDir (ofPlace q) = false := by
    rw [isDir_ofPlace ht.toIsTree hfits (ht.passable_of_some hentry fun _ => nofun), hentry]
    rfl
  have herase := erase_of_file ht.toIsTree hfits hentry
  cases tags with
  | none => simp only [removeOne, hisDir, Bool.false_eq_true, if_false, herase]
  | some f =>
    cases hdoc : Document.ofBytes? content with
    | none =>
      simp only [removeOne, hisDir, Bool.false_eq_true, if_false,
        load_of_unreadable ht.toIsTree hfile hdoc]
    | some doc =>
      simp only [removeOne, hisDir, Bool.false_eq_true, if_false,
        load_of_fileAt? ht.toIsTree hfile hdoc, herase]

/-- Without a file the tree is one still. -/
theorem isPlainTree_drop (ht : d.IsPlainTree) (hfile : d.fileAt? q = some content) :
    (d.drop q).IsPlainTree :=
  ht.drop_file (fileAt?_eq_some_iff.mp hfile)

/-! ### Trimming a file -/

theorem load_of_docAt? (ht : d.IsTree) (hdoc : d.docAt? q = some doc) :
    load d (ofPlace q) = .ok (some doc) := by
  obtain ⟨content, hcontent, hread⟩ := Option.bind_eq_some_iff.mp hdoc
  exact load_of_fileAt? ht hcontent hread

/-- A file that is no document is not trimmed. -/
theorem trimOne_of_unreadable (ht : d.IsPlainTree) (hfile : d.fileAt? q = some content)
    (hdoc : Document.ofBytes? content = none) :
    trimOne d tags range (ofPlace q) = (.error .unreadable, d) := by
  rw [trimOne, load_of_unreadable ht.toIsTree hfile hdoc]

/-- Nor is a document whose tags are not accepted, or that has no records in the range. -/
theorem trimOne_of_kept (ht : d.IsPlainTree) (hdoc : d.docAt? q = some doc)
    (hkept : TagFilter.accepts tags doc.tags = true → ¬doc.hasRecordsIn [range]) :
    trimOne d tags range (ofPlace q) = (.ok (), d) := by
  rw [trimOne, load_of_docAt? ht.toIsTree hdoc]
  cases haccepts : TagFilter.accepts tags doc.tags with
  | false => simp [haccepts]
  | true =>
    have hsame : (doc.records.filter fun k _ => !range.contains k) = doc.records := by
      have h := congrArg Document.records (Document.outside_eq_self_of_not (hkept haccepts))
      simpa [Document.outside] using h
    simp [hsame]

/-- A document with records in the range is saved without them. -/
theorem trimOne_of_hasRecordsIn (ht : d.IsPlainTree) (hdoc : d.docAt? q = some doc)
    (haccepts : TagFilter.accepts tags doc.tags = true) (hhas : doc.hasRecordsIn [range]) :
    trimOne d tags range (ofPlace q) = save d (ofPlace q) (doc.outside [range]) := by
  have hless : ((doc.records.filter fun k _ => !range.contains k).size != doc.records.size) =
      true := by
    rw [bne_iff_ne]
    intro hsize
    obtain ⟨k, hk, hin⟩ := hhas
    rw [← OrderedMap.filter_eq_self_of_size hsize, OrderedMap.keys_filter, List.mem_filter] at hk
    simp_all
  rw [trimOne, load_of_docAt? ht.toIsTree hdoc]
  simp [haccepts, hless, Document.outside]

/-- What it takes to save a document in the place of another one. -/
structure TakesDraft (d : Disk) (up : Place) (name : String) : Prop where
  /-- The name of the hidden file is not too long. -/
  short : (draftName name).utf8ByteSize ≤ nameLimit
  /-- Nothing has it. -/
  free : d.entry? (up ++ [draftName name]) = none

/-- The name of a hidden file is like that of the file, but for its length. -/
theorem isPlain_draftName (hname : Fits name) : IsPlain (draftName name) where
  isEntryName := isEntryName_draftName (isEntryName_iff.mp hname.isEntryName).2.1
  noZero := by simpa [draftName] using hname.noZero

/-- **A document that is saved in the place of another file** is its content, and nothing else
changes. -/
theorem save_of_file (ht : d.IsPlainTree) (hfile : d.fileAt? (q ++ [name]) = some content)
    (hdraft : TakesDraft d q name) (doc : Document) :
    ∃ d', save d (ofPlace (q ++ [name])) doc = (.ok (), d') ∧ d'.IsPlainTree ∧
      ∀ r, d'.entry? r = if r = q ++ [name] then some (.file doc.bytes) else d.entry? r := by
  have hentry := fileAt?_eq_some_iff.mp hfile
  have hfits := ht.fits hentry
  have hdir : d.entry? q = some .dir := ht.closed hentry
  obtain ⟨d', hsave, ht', hd'⟩ := save_ofPlace ht.toIsTree hfits
    ⟨isPlain_draftName (hfits name (by simp)), hdraft.short⟩ (ht.vacant_of_dir hdir)
    (takesFile_of_none hdraft.free) ⟨by simp [hentry], by simp [hentry]⟩ doc
  have hentries : ∀ r, d'.entry? r =
      if r = q ++ [name] then some (.file doc.bytes) else d.entry? r := by
    intro r
    rw [hd', ← ht.entry?_of_dir hdir r]
    by_cases hr : r = q ++ [draftName name]
    · rw [if_pos hr, hr, hdraft.free]
    · rw [if_neg hr]
  refine ⟨d', hsave, ⟨ht', fun r t hr => ?_⟩, hentries⟩
  rw [hentries] at hr
  split at hr
  · cases hr
  · exact ht.noLinks r t hr

/-- **A document is trimmed** if a hidden file fits beside it. It is the other records that
are left, and nothing else changes. -/
theorem trimOne_of_fits (ht : d.IsPlainTree) (hdoc : d.docAt? (q ++ [name]) = some doc)
    (haccepts : TagFilter.accepts tags doc.tags = true) (hexact : doc.IsExact)
    (hdraft : TakesDraft d q name) (range : KeyRange) :
    ∃ d', trimOne d tags range (ofPlace (q ++ [name])) = (.ok (), d') ∧ d'.IsPlainTree ∧
      (∀ r, r ≠ q ++ [name] → d'.entry? r = d.entry? r) ∧
      d'.docAt? (q ++ [name]) = some (doc.outside [range]) := by
  by_cases hhas : doc.hasRecordsIn [range]
  · obtain ⟨content, hcontent, -⟩ := Option.bind_eq_some_iff.mp hdoc
    obtain ⟨d', hsave, ht', hd'⟩ := save_of_file ht hcontent hdraft (doc.outside [range])
    refine ⟨d', ?_, ht', fun r hr => by rw [hd', if_neg hr], ?_⟩
    · rw [trimOne_of_hasRecordsIn ht hdoc haccepts hhas, hsave]
    · rw [docAt?, fileAt?_eq_some_iff.mpr (by rw [hd', if_pos rfl]), Option.bind_some,
        Document.ofBytes?_bytes (hexact.outside _)]
  · exact ⟨d, trimOne_of_kept ht hdoc fun _ => hhas, ht, fun _ _ => rfl, by
      rw [hdoc, Document.outside_eq_self_of_not hhas]⟩

/-- A document is not trimmed if the name of its hidden file is too long. -/
theorem trimOne_of_longDraft (ht : d.IsPlainTree) (hdoc : d.docAt? (q ++ [name]) = some doc)
    (haccepts : TagFilter.accepts tags doc.tags = true) (hhas : doc.hasRecordsIn [range])
    (hlong : nameLimit < (draftName name).utf8ByteSize) :
    trimOne d tags range (ofPlace (q ++ [name])) = (.error (.io .invalidFilename), d) := by
  obtain ⟨content, hcontent, -⟩ := Option.bind_eq_some_iff.mp hdoc
  have hentry := fileAt?_eq_some_iff.mp hcontent
  have hfits := ht.fits hentry
  have hnames : ∀ n ∈ q ++ [name], isEntryName n = true := fun n hn => (hfits n hn).isEntryName
  have hdir : d.entry? q = some .dir := ht.closed hentry
  rw [trimOne_of_hasRecordsIn ht hdoc haccepts hhas, save, parent?_ofPlace hnames]
  simp only [makeDirs_of_dir ht.toIsTree hdir, fileName?_ofPlace hnames,
    child_ofPlace fun n hn => (ht.fits hdir n hn).isEntryName, putInPlace, write,
    locate_of_tooLong ht.toIsTree (isPlain_draftName (hfits name (by simp))) hlong hdir]

end DirectoryStore

end KeyedSeries

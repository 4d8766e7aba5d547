import KeyedSeries.Proofs.Engine.Keeps
import KeyedSeries.Proofs.Store.AnyPlace

/-!
# Every target, whatever happens to the others

A removal goes through its targets in order, and a target that fails keeps none of the
others from its turn. Some calls of the store are made to fail
(`KeyedSeries.Engine.failingAt`); why a target fails otherwise depends on what stands at it
and above it (`KeyedSeries.Engine.FailsAt`). What becomes of all targets is said at once
(`KeyedSeries.Engine.Treated`): **the targets that do not fail are removed or trimmed where the
removal is meant for them, all else stays, and the failure is that of the first target that
fails** (`KeyedSeries.Engine.treated_of_onEach`).

A file that is above a target has its turn before it. So whether it is in the way is a matter
of the disk that is left, not of the one that was found.
-/

namespace KeyedSeries

open Disk FilePath

/-- A store that fails when it is to remove or to trim certain files, and then does nothing. -/
def Store.failingAt {σ : Type} (store : Store σ) (fails : FilePath → Option Failure) : Store σ :=
  { store with
    removeSeries := fun files filter =>
      match files.findSome? fails with
      | some failure => throw failure
      | none => store.removeSeries files filter
    trim := fun files filter range =>
      match files.findSome? fails with
      | some failure => throw failure
      | none => store.trim files filter range }

namespace Engine

variable {σ : Type} {fails : FilePath → Option Failure} {ranges : List KeyRange}
  {tags : Option TagFilter} {d d' d₁ : Disk} {q : Place} {rest : List Place} {failure : Failure}
  {r r' : Except Failure Unit}

/-- The engine with such a store. -/
def failingAt (e : Engine σ) (fails : FilePath → Option Failure) : Engine σ :=
  { e with store := e.store.failingAt fails }

/-- What a removal does with one file. -/
def treat (e : Engine σ) (ranges : List KeyRange) (tags : Option TagFilter) (file : FilePath) :
    Action σ Unit :=
  if ranges.isEmpty then e.store.removeSeries [file] tags else e.trimAll tags file ranges

/-! ### Targets -/

/-- A removal is meant for the file at a place: it takes all files, or the tags of the
document are accepted. -/
def Chosen (ranges : List KeyRange) (tags : Option TagFilter) (d : Disk) (q : Place) : Prop :=
  ∃ content, d.fileAt? q = some content ∧ (ranges = [] ∧ tags = none ∨
    ∃ doc, Document.ofBytes? content = some doc ∧ TagFilter.accepts tags doc.tags = true)

/-- Why a target fails, given the disk that a removal finds and the one that it leaves. -/
inductive FailsAt (fails : FilePath → Option Failure) (ranges : List KeyRange)
    (tags : Option TagFilter) (d d' : Disk) (q : Place) : Failure → Prop
  /-- The calls of the store are made to fail. -/
  | told {failure : Failure} (h : fails (ofPlace q) = some failure) :
    FailsAt fails ranges tags d d' q failure
  /-- The place cannot be reached. -/
  | blocked {kind : IoKind} (hcalls : fails (ofPlace q) = none) (h : d'.Blocked q kind) :
    FailsAt fails ranges tags d d' q (.io kind)
  /-- The document has to be read, and it is none. -/
  | unreadable {content : Bytes} (hcalls : fails (ofPlace q) = none)
    (hreads : ranges ≠ [] ∨ tags ≠ none) (hfile : d.fileAt? q = some content)
    (hdoc : Document.ofBytes? content = none) : FailsAt fails ranges tags d d' q .unreadable
  /-- The document has to be saved, and the name of the hidden file is too long. -/
  | longDraft {up : Place} {name : String} {doc : Document} (hcalls : fails (ofPlace q) = none)
    (hq : q = up ++ [name]) (hdoc : d.docAt? q = some doc)
    (haccepts : TagFilter.accepts tags doc.tags = true) (hhas : doc.hasRecordsIn ranges)
    (hlong : nameLimit < (DirectoryStore.draftName name).utf8ByteSize) :
    FailsAt fails ranges tags d d' q (.io .invalidFilename)

/-- What is found at a place and what is left above it decide why a target fails. -/
theorem FailsAt.congr {a a' : Disk} (hentry : a.entry? q = d.entry? q)
    (habove : ∀ p, p <+: q → p ≠ q → a'.entry? p = d'.entry? p) :
    FailsAt fails ranges tags d d' q failure ↔ FailsAt fails ranges tags a a' q failure := by
  have himp : ∀ {a a' b b' : Disk}, b.entry? q = a.entry? q →
      (∀ p, p <+: q → p ≠ q → b'.entry? p = a'.entry? p) →
        FailsAt fails ranges tags a a' q failure → FailsAt fails ranges tags b b' q failure := by
    intro a a' b b' hentry habove h
    have hfile : b.fileAt? q = a.fileAt? q := by rw [fileAt?, hentry, fileAt?]
    have hdoc : b.docAt? q = a.docAt? q := by rw [docAt?, hfile, docAt?]
    cases h with
    | told h => exact .told h
    | blocked hcalls h => exact .blocked hcalls ((Blocked.congr habove).mp h)
    | unreadable hcalls hreads hcontent h =>
      exact .unreadable hcalls hreads (hfile.trans hcontent) h
    | longDraft hcalls hq h haccepts hhas hlong =>
      exact .longDraft hcalls hq (hdoc.trans h) haccepts hhas hlong
  exact ⟨himp hentry habove, himp hentry.symm fun p hp hne => (habove p hp hne).symm⟩

theorem Chosen.congr {a : Disk} (hentry : a.entry? q = d.entry? q) :
    Chosen ranges tags d q ↔ Chosen ranges tags a q := by
  rw [Chosen, Chosen, fileAt?, fileAt?, hentry]

/-- A result is the first failure of a list of places, if there is one. -/
def FirstOf (F : Place → Failure → Prop) (places : List Place) : Except Failure Unit → Prop
  | .ok () => ∀ q ∈ places, ∀ failure, ¬F q failure
  | .error failure => ∃ before q after, places = before ++ q :: after ∧
      (∀ p ∈ before, ∀ failure, ¬F p failure) ∧ F q failure

/-- A failure comes before those of the places behind it. -/
theorem FirstOf.cons {F : Place → Failure → Prop} (h : FirstOf F [q] r) (h' : FirstOf F rest r') :
    FirstOf F (q :: rest) (r.bind fun _ => r') := by
  cases r with
  | error failure =>
    obtain ⟨before, p, after, hsplit, -, hfails⟩ := h
    have hq : p = q := by
      have hmem : p ∈ [q] := hsplit ▸ List.mem_append_right before List.mem_cons_self
      simpa using hmem
    exact ⟨[], q, rest, rfl, nofun, hq ▸ hfails⟩
  | ok =>
    have hfree : ∀ failure, ¬F q failure := h q List.mem_cons_self
    cases r' with
    | ok => exact List.forall_mem_cons.mpr ⟨hfree, h'⟩
    | error failure =>
      obtain ⟨before, p, after, rfl, hbefore, hfails⟩ := h'
      exact ⟨q :: before, p, after, rfl, List.forall_mem_cons.mpr ⟨hfree, hbefore⟩, hfails⟩

theorem FirstOf.congr {F G : Place → Failure → Prop} {places : List Place}
    (h : ∀ q ∈ places, ∀ failure, F q failure ↔ G q failure) (hr : FirstOf F places r) :
    FirstOf G places r := by
  cases r with
  | ok => exact fun q hq failure hG => hr q hq failure ((h q hq failure).mpr hG)
  | error failure =>
    obtain ⟨before, q, after, rfl, hbefore, hfails⟩ := hr
    exact ⟨before, q, after, rfl, fun p hp failure hG => hbefore p hp failure
      ((h p (List.mem_append_left _ hp) failure).mpr hG),
      (h q (List.mem_append_right _ List.mem_cons_self) failure).mp hfails⟩

/-- **What becomes of targets**: those that do not fail are removed or trimmed, if the removal
is meant for them, and all else stays. -/
structure Treated (fails : FilePath → Option Failure) (ranges : List KeyRange)
    (tags : Option TagFilter) (d : Disk) (places : List Place) (d' : Disk)
    (r : Except Failure Unit) : Prop where
  /-- There are no links. -/
  isPlainTree : d'.IsPlainTree
  /-- The result is the first failure. -/
  result : FirstOf (FailsAt fails ranges tags d d') places r
  /-- Without ranges the file is removed. -/
  removed : ranges = [] → ∀ q ∈ places, (∀ failure, ¬FailsAt fails ranges tags d d' q failure) →
    Chosen ranges tags d q → d'.entry? q = none
  /-- With ranges the document has the records outside of them. -/
  trimmed : ranges ≠ [] → ∀ q ∈ places, (∀ failure, ¬FailsAt fails ranges tags d d' q failure) →
    Chosen ranges tags d q → d'.docAt? q = (d.docAt? q).map (·.outside ranges)
  /-- All else stays. -/
  kept : ∀ q, (q ∈ places → (∃ failure, FailsAt fails ranges tags d d' q failure) ∨
    ¬Chosen ranges tags d q) → d'.entry? q = d.entry? q

/-! ### One target -/

/-- A target that stays as it is, because it fails or the removal is not meant for it. -/
theorem Treated.of_same (ht : d.IsPlainTree)
    (hresult : match r with
      | .ok () => (∀ failure, ¬FailsAt fails ranges tags d d q failure) ∧ ¬Chosen ranges tags d q
      | .error failure => FailsAt fails ranges tags d d q failure) :
    Treated fails ranges tags d [q] d r := by
  have hout : (∀ failure, ¬FailsAt fails ranges tags d d q failure) → ¬Chosen ranges tags d q := by
    cases r with
    | ok => exact fun _ => hresult.2
    | error failure => exact fun hfree => absurd hresult (hfree failure)
  refine ⟨ht, ?_, fun _ p hp hfree hchosen => ?_, fun _ p hp hfree hchosen => ?_, fun _ _ => rfl⟩
  · cases r with
    | ok => exact List.forall_mem_singleton.mpr hresult.1
    | error failure => exact ⟨[], q, [], rfl, nofun, hresult⟩
  · obtain rfl := List.mem_singleton.mp hp
    exact absurd hchosen (hout hfree)
  · obtain rfl := List.mem_singleton.mp hp
    exact absurd hchosen (hout hfree)

/-- A target that is removed or trimmed. -/
theorem Treated.of_done (ht : d'.IsPlainTree)
    (hfree : ∀ failure, ¬FailsAt fails ranges tags d d q failure)
    (hchosen : Chosen ranges tags d q) (hframe : ∀ p, p ≠ q → d'.entry? p = d.entry? p)
    (hremoved : ranges = [] → d'.entry? q = none)
    (htrimmed : ranges ≠ [] → d'.docAt? q = (d.docAt? q).map (·.outside ranges)) :
    Treated fails ranges tags d [q] d' (.ok ()) := by
  have hsame : ∀ failure, ¬FailsAt fails ranges tags d d' q failure := fun failure h =>
    hfree failure ((FailsAt.congr rfl fun p _ hne => (hframe p hne).symm).mp h)
  refine ⟨ht, List.forall_mem_singleton.mpr hsame, fun hnil p hp _ _ => ?_,
    fun hne p hp _ _ => ?_, fun p hp => ?_⟩
  · obtain rfl := List.mem_singleton.mp hp
    exact hremoved hnil
  · obtain rfl := List.mem_singleton.mp hp
    exact htrimmed hne
  · refine hframe p fun hpq => ?_
    subst hpq
    rcases hp List.mem_cons_self with ⟨failure, hfails⟩ | hnot
    · exact hsame failure hfails
    · exact hnot hchosen

/-- Trimming by ranges that each leave the state as it is. -/
theorem outcome_trimAll_of_same {e : Engine σ} {file : FilePath} {s : σ} (failure : Failure)
    (hits : KeyRange → Bool) (h : ∀ range ∈ ranges, outcome (e.store.trim [file] tags range) s =
      (if hits range then .error failure else .ok (), s)) :
    outcome (e.trimAll tags file ranges) s =
      (if ranges.any hits then .error failure else .ok (), s) := by
  induction ranges with
  | nil => rfl
  | cons range rest ih =>
    obtain ⟨hfirst, hrest⟩ := List.forall_mem_cons.mp h
    rw [outcome_trimAll_cons]
    simp only [hfirst, ih hrest, List.any_cons]
    by_cases hhit : hits range = true
    · simp only [hhit, if_true, Bool.true_or]
    · simp only [hhit, Bool.false_eq_true, if_false, Bool.false_or]

section Told

variable {e : Engine σ} {file : FilePath} {s : σ}

theorem removeSeries_failingAt (fails : FilePath → Option Failure) (file : FilePath)
    (tags : Option TagFilter) : (e.failingAt fails).store.removeSeries [file] tags =
      match fails file with
      | some failure => throw failure
      | none => e.store.removeSeries [file] tags := by
  rw [failingAt, Store.failingAt]
  cases h : fails file <;> simp [List.findSome?, h]

theorem trim_failingAt (fails : FilePath → Option Failure) (file : FilePath)
    (tags : Option TagFilter) (range : KeyRange) :
    (e.failingAt fails).store.trim [file] tags range =
      match fails file with
      | some failure => throw failure
      | none => e.store.trim [file] tags range := by
  rw [failingAt, Store.failingAt]
  cases h : fails file <;> simp [List.findSome?, h]

/-- A store that is made to fail at a file does nothing with it. -/
theorem outcome_treat_of_told (h : fails file = some failure) :
    outcome ((e.failingAt fails).treat ranges tags file) s = (.error failure, s) := by
  cases ranges with
  | nil =>
    show outcome ((e.failingAt fails).store.removeSeries [file] tags) s = _
    rw [removeSeries_failingAt, h, outcome_throw]
  | cons range rest =>
    rw [treat, if_neg (by simp), outcome_trimAll_of_same failure fun _ => true]
    · simp
    · intro range' _
      rw [trim_failingAt, h, outcome_throw, if_pos rfl]

/-- Otherwise it does what the store does. -/
theorem treat_of_not_told (h : fails file = none) :
    (e.failingAt fails).treat ranges tags file = e.treat ranges tags file := by
  have htrim : (e.failingAt fails).trimAll tags file ranges = e.trimAll tags file ranges := by
    induction ranges with
    | nil => rfl
    | cons range rest ih =>
      funext s
      rw [trimAll, trimAll, ih, trim_failingAt, h]
  rw [treat, treat, removeSeries_failingAt, h, htrim]

end Told

section Directory

variable {e : Engine DirectoryStore} {chunkSize : Nat} {s : DirectoryStore} {up : Place}
  {name : String}

/-- What is done with one file changes the disk as removing or trimming does. -/
theorem outcome_treat_of_same (hstore : e.store = DirectoryStore.store chunkSize)
    (hopen : s.closed = false) {file : FilePath}
    (hremove : ranges = [] → DirectoryStore.removeOne s.disk tags file = (r, s.disk))
    (htrim : ∀ range ∈ ranges, DirectoryStore.trimOne s.disk tags range file = (r, s.disk)) :
    outcome (e.treat ranges tags file) s = (r, s) := by
  rw [treat, hstore]
  cases ranges with
  | nil => exact DirectoryStore.outcome_removeSeries chunkSize hopen (hremove rfl)
  | cons range rest =>
    have hall : ∀ range' ∈ range :: rest,
        outcome (e.store.trim [file] tags range') s = (r, s) := fun range' hmem => by
      rw [hstore]
      exact DirectoryStore.outcome_trim chunkSize hopen (htrim range' hmem)
    rw [if_neg (by simp)]
    cases r with
    | error failure =>
      rw [outcome_trimAll_of_same failure (fun _ => true) (by simpa using hall)]
      simp
    | ok =>
      rw [outcome_trimAll_of_same .closed (fun _ => false) (by simpa using hall)]
      simp

/-- **Trimming a document** by all ranges leaves the records outside of them. -/
theorem outcome_trimAll_of_fits (hstore : e.store = DirectoryStore.store chunkSize)
    (hopen : s.closed = false) (ht : s.disk.IsPlainTree) {doc : Document}
    (hdoc : s.disk.docAt? (up ++ [name]) = some doc)
    (haccepts : TagFilter.accepts tags doc.tags = true) (hexact : doc.IsExact)
    (hdraft : DirectoryStore.TakesDraft s.disk up name) (ranges : List KeyRange) :
    ∃ d', outcome (e.trimAll tags (ofPlace (up ++ [name])) ranges) s =
        (.ok (), { s with disk := d' }) ∧ d'.IsPlainTree ∧
      (∀ p, p ≠ up ++ [name] → d'.entry? p = s.disk.entry? p) ∧
      d'.docAt? (up ++ [name]) = some (doc.outside ranges) := by
  induction ranges generalizing s doc with
  | nil => exact ⟨s.disk, rfl, ht, fun _ _ => rfl, by rw [hdoc, Document.outside_nil]⟩
  | cons range rest ih =>
    obtain ⟨d₁, htrim, ht₁, hframe₁, hdoc₁⟩ :=
      DirectoryStore.trimOne_of_fits ht hdoc haccepts hexact hdraft range
    have hne : up ++ [DirectoryStore.draftName name] ≠ up ++ [name] := by
      simpa using DirectoryStore.draftName_ne name
    have hdraft₁ : DirectoryStore.TakesDraft d₁ up name :=
      ⟨hdraft.short, (hframe₁ _ hne).trans hdraft.free⟩
    obtain ⟨d', hrun, ht', hframe, hdoc'⟩ := ih (s := { s with disk := d₁ }) hopen ht₁ hdoc₁
      haccepts (hexact.outside _) hdraft₁
    refine ⟨d', ?_, ht', fun p hp => (hframe p hp).trans (hframe₁ p hp), ?_⟩
    · have hfirst : outcome (e.store.trim [ofPlace (up ++ [name])] tags range) s =
          (.ok (), { s with disk := d₁ }) := by
        rw [hstore]
        exact DirectoryStore.outcome_trim chunkSize hopen htrim
      rw [outcome_trimAll_cons]
      simp only [hfirst, hrun]
    · rw [hdoc', ← Document.outside_cons]

/-- A document whose hidden file has too long a name is not trimmed. -/
theorem outcome_trimAll_of_longDraft (hstore : e.store = DirectoryStore.store chunkSize)
    (hopen : s.closed = false) (ht : s.disk.IsPlainTree) {doc : Document}
    (hdoc : s.disk.docAt? (up ++ [name]) = some doc)
    (haccepts : TagFilter.accepts tags doc.tags = true) (hhas : doc.hasRecordsIn ranges)
    (hlong : nameLimit < (DirectoryStore.draftName name).utf8ByteSize) :
    outcome (e.trimAll tags (ofPlace (up ++ [name])) ranges) s =
      (.error (.io .invalidFilename), s) := by
  have hhits : ∀ range, doc.records.keys.any range.contains = true ↔ doc.hasRecordsIn [range] :=
    fun range => by simp [Document.hasRecordsIn]
  rw [outcome_trimAll_of_same (.io .invalidFilename)
    fun range => doc.records.keys.any range.contains, if_pos]
  · obtain ⟨k, hk, hin⟩ := hhas
    obtain ⟨range, hrange, hcontains⟩ := KeyRange.anyContains_iff.mp hin
    exact List.any_eq_true.mpr ⟨range, hrange, List.any_eq_true.mpr ⟨k, hk, hcontains⟩⟩
  · intro range _
    rw [hstore]
    refine DirectoryStore.outcome_trim chunkSize hopen ?_
    split
    · next hhit =>
      exact DirectoryStore.trimOne_of_longDraft ht hdoc haccepts ((hhits range).mp hhit) hlong
    · next hmiss =>
      exact DirectoryStore.trimOne_of_kept ht hdoc fun _ h => hmiss ((hhits range).mpr h)

/-- A file does not fail if it need not be read, or if it can be read and saved. -/
theorem not_failsAt_of_file (ht : d.IsPlainTree) (hcalls : fails (ofPlace q) = none)
    {content : Bytes} (hfile : d.fileAt? q = some content)
    (h : ranges = [] ∧ tags = none ∨ ∃ doc, Document.ofBytes? content = some doc ∧
      ∀ up name, q = up ++ [name] → TagFilter.accepts tags doc.tags = true →
        doc.hasRecordsIn ranges → (DirectoryStore.draftName name).utf8ByteSize ≤ nameLimit) :
    ∀ failure, ¬FailsAt fails ranges tags d d q failure := by
  intro failure hfails
  cases hfails with
  | told htold =>
    rw [hcalls] at htold
    cases htold
  | blocked _ hblocked => exact not_blocked_of_some ht (fileAt?_eq_some_iff.mp hfile) _ hblocked
  | unreadable _ hreads hcontent hdoc =>
    obtain rfl := Option.some.inj (hfile.symm.trans hcontent)
    rcases h with ⟨rfl, rfl⟩ | ⟨doc, hdoc', -⟩
    · simp at hreads
    · rw [hdoc] at hdoc'
      cases hdoc'
  | longDraft _ hq hdoc haccepts hhas hlong =>
    rcases h with ⟨rfl, -⟩ | ⟨doc, hdoc', hshort⟩
    · obtain ⟨k, -, hin⟩ := hhas
      simp at hin
    · rw [docAt?, hfile, Option.bind_some, hdoc'] at hdoc
      cases hdoc
      exact absurd hlong (Nat.not_lt.mpr (hshort _ _ hq haccepts hhas))

/-- A file that a removal is meant for is removed. -/
theorem removeOne_of_chosen (ht : d.IsPlainTree) (h : Chosen [] tags d q) :
    DirectoryStore.removeOne d tags (ofPlace q) = (.ok (), d.drop q) := by
  obtain ⟨content, hfile, hchosen⟩ := h
  rw [DirectoryStore.removeOne_of_file ht hfile]
  cases tags with
  | none => rfl
  | some f =>
    rcases hchosen with ⟨-, htags⟩ | ⟨doc, hdoc, haccepts⟩
    · cases htags
    · rw [hdoc]
      exact if_pos haccepts

/-- What is done with a target comes to what becomes of it. -/
def Treats (fails : FilePath → Option Failure) (ranges : List KeyRange) (tags : Option TagFilter)
    (q : Place) (work : Action DirectoryStore Unit) (s : DirectoryStore) : Prop :=
  ∃ r d', outcome work s = (r, { s with disk := d' }) ∧ Treated fails ranges tags s.disk [q] d' r

/-- A place without a file fails if it is blocked. -/
theorem treats_of_noFile (hstore : e.store = DirectoryStore.store chunkSize)
    (hopen : s.closed = false) (ht : s.disk.IsPlainTree) (hq : ∀ n ∈ q, isEntryName n = true)
    (hcalls : fails (ofPlace q) = none) (hfile : s.disk.fileAt? q = none) :
    Treats fails ranges tags q (e.treat ranges tags (ofPlace q)) s := by
  rcases DirectoryStore.untouched_of_noFile ht hq hfile with ⟨kind, hblocked, h⟩ | ⟨hreached, h⟩
  · exact ⟨_, s.disk, outcome_treat_of_same hstore hopen (fun _ => h.removeOne_eq tags)
      (fun range _ => h.trimOne_eq tags range), .of_same ht (.blocked hcalls hblocked)⟩
  · refine ⟨_, s.disk, outcome_treat_of_same hstore hopen (fun _ => h.removeOne_eq tags)
      (fun range _ => h.trimOne_eq tags range),
      .of_same ht ⟨fun failure hfails => ?_, fun ⟨content, hcontent, _⟩ => ?_⟩⟩
    · cases hfails with
      | told htold => simp [hcalls] at htold
      | blocked _ hblocked => exact hreached _ hblocked
      | unreadable _ _ hcontent => simp [hfile] at hcontent
      | longDraft _ _ hdoc => simp [docAt?, hfile] at hdoc
    · simp [hfile] at hcontent

/-- A file that is no document fails if it has to be read, and otherwise it is removed. -/
theorem treats_of_unreadable (hstore : e.store = DirectoryStore.store chunkSize)
    (hopen : s.closed = false) (ht : s.disk.IsPlainTree) (hcalls : fails (ofPlace q) = none)
    {content : Bytes} (hfile : s.disk.fileAt? q = some content)
    (hdoc : Document.ofBytes? content = none) (hreads : ranges ≠ [] ∨ tags ≠ none) :
    Treats fails ranges tags q (e.treat ranges tags (ofPlace q)) s := by
  refine ⟨.error .unreadable, s.disk, outcome_treat_of_same hstore hopen (fun hnil => ?_)
    (fun range _ => DirectoryStore.trimOne_of_unreadable ht hfile hdoc),
    .of_same ht (.unreadable hcalls hreads hfile hdoc)⟩
  obtain ⟨f, rfl⟩ := Option.ne_none_iff_exists'.mp (hreads.resolve_left fun h => h hnil)
  rw [DirectoryStore.removeOne_of_file ht hfile, hdoc]

/-- Without ranges a file that the removal is meant for goes. -/
theorem treats_of_chosen (hstore : e.store = DirectoryStore.store chunkSize)
    (hopen : s.closed = false) (ht : s.disk.IsPlainTree) (hne : q ≠ [])
    (hchosen : Chosen [] tags s.disk q)
    (hfree : ∀ failure, ¬FailsAt fails [] tags s.disk s.disk q failure) :
    Treats fails [] tags q (e.treat [] tags (ofPlace q)) s := by
  have ⟨content, hfile, _⟩ := hchosen
  refine ⟨.ok (), s.disk.drop q, ?_, .of_done (DirectoryStore.isPlainTree_drop ht hfile) hfree
    hchosen (fun p hp => ?_) (fun _ => ?_) (fun h => absurd rfl h)⟩
  · show outcome (e.store.removeSeries [ofPlace q] tags) s = _
    rw [hstore]
    exact DirectoryStore.outcome_removeSeries chunkSize hopen (removeOne_of_chosen ht hchosen)
  · rw [entry?_drop hne, if_neg hp]
  · rw [entry?_drop hne, if_pos rfl]

/-- A document whose tags are not accepted stays. -/
theorem treats_of_notAccepted (hstore : e.store = DirectoryStore.store chunkSize)
    (hopen : s.closed = false) (ht : s.disk.IsPlainTree) {content : Bytes} {doc : Document}
    (hfile : s.disk.fileAt? q = some content) (hdoc : Document.ofBytes? content = some doc)
    (haccepts : ¬TagFilter.accepts tags doc.tags = true)
    (hfree : ∀ failure, ¬FailsAt fails ranges tags s.disk s.disk q failure) :
    Treats fails ranges tags q (e.treat ranges tags (ofPlace q)) s := by
  have hdocAt : s.disk.docAt? q = some doc := by rw [docAt?, hfile, Option.bind_some, hdoc]
  obtain ⟨f, rfl⟩ : ∃ f, tags = some f :=
    Option.ne_none_iff_exists'.mp fun hnone => haccepts (by rw [hnone]; rfl)
  refine ⟨.ok (), s.disk, outcome_treat_of_same hstore hopen (fun _ => ?_)
    (fun range _ => DirectoryStore.trimOne_of_kept ht hdocAt fun h => absurd h haccepts),
    .of_same ht ⟨hfree, ?_⟩⟩
  · rw [DirectoryStore.removeOne_of_file ht hfile, hdoc]
    exact if_neg haccepts
  · rintro ⟨content', hcontent', hchosen⟩
    obtain rfl := Option.some.inj (hfile.symm.trans hcontent')
    rcases hchosen with ⟨-, htags⟩ | ⟨doc', hdoc', haccepts'⟩
    · cases htags
    · obtain rfl := Option.some.inj (hdoc.symm.trans hdoc')
      exact haccepts haccepts'

/-- A document whose tags are accepted is trimmed, unless it has to be saved and cannot be. -/
theorem treats_of_accepted (hstore : e.store = DirectoryStore.store chunkSize)
    (hopen : s.closed = false) (ht : s.disk.IsPlainTree)
    (hcalls : fails (ofPlace (up ++ [name])) = none) (hranges : ranges ≠ []) {doc : Document}
    (hdoc : s.disk.docAt? (up ++ [name]) = some doc)
    (haccepts : TagFilter.accepts tags doc.tags = true) (hexact : doc.IsExact)
    (hnoDraft : s.disk.entry? (up ++ [DirectoryStore.draftName name]) = none) :
    Treats fails ranges tags (up ++ [name]) (e.treat ranges tags (ofPlace (up ++ [name]))) s := by
  obtain ⟨content, hfile, hread⟩ := Option.bind_eq_some_iff.mp hdoc
  have htreat : e.treat ranges tags (ofPlace (up ++ [name])) =
      e.trimAll tags (ofPlace (up ++ [name])) ranges := by
    rw [treat, if_neg (by simpa using hranges)]
  have hchosen : Chosen ranges tags s.disk (up ++ [name]) :=
    ⟨content, hfile, .inr ⟨doc, hread, haccepts⟩⟩
  by_cases hlong : doc.hasRecordsIn ranges ∧
      nameLimit < (DirectoryStore.draftName name).utf8ByteSize
  · rw [htreat]
    exact ⟨_, s.disk, outcome_trimAll_of_longDraft hstore hopen ht hdoc haccepts hlong.1 hlong.2,
      .of_same ht (.longDraft hcalls rfl hdoc haccepts hlong.1 hlong.2)⟩
  · have hfree : ∀ failure, ¬FailsAt fails ranges tags s.disk s.disk (up ++ [name]) failure :=
      not_failsAt_of_file ht hcalls hfile (.inr ⟨doc, hread, fun up' name' heq _ hhas => by
        obtain ⟨-, hname⟩ := List.append_inj' heq rfl
        obtain rfl : name = name' := by simpa using hname
        exact Nat.not_lt.mp fun h => hlong ⟨hhas, h⟩⟩)
    rw [htreat]
    by_cases hhas : doc.hasRecordsIn ranges
    · obtain ⟨d', hrun, ht', hframe, hdoc'⟩ := outcome_trimAll_of_fits hstore hopen ht hdoc
        haccepts hexact ⟨Nat.not_lt.mp fun h => hlong ⟨hhas, h⟩, hnoDraft⟩ ranges
      exact ⟨_, d', hrun, .of_done ht' hfree hchosen hframe (fun h => absurd h hranges) fun _ => by
        rw [hdoc', hdoc, Option.map_some]⟩
    · refine ⟨.ok (), s.disk, htreat ▸ outcome_treat_of_same hstore hopen
        (fun h => absurd h hranges) (fun range hrange => ?_),
        .of_done ht hfree hchosen (fun _ _ => rfl) (fun h => absurd h hranges) fun _ => ?_⟩
      · refine DirectoryStore.trimOne_of_kept ht hdoc fun _ ⟨k, hk, hin⟩ => hhas ⟨k, hk, ?_⟩
        exact KeyRange.anyContains_iff.mpr ⟨range, hrange, by simpa using hin⟩
      · rw [hdoc, Option.map_some, Document.outside_eq_self_of_not hhas]

/-- **What becomes of one target**, whatever stands there. -/
theorem treats_treat (hstore : e.store = DirectoryStore.store chunkSize)
    (hopen : s.closed = false) (ht : s.disk.IsPlainTree) (hq : ∀ n ∈ q, isEntryName n = true)
    (hne : q ≠ [])
    (hdocs : ranges ≠ [] → ∀ up name doc, q = up ++ [name] → s.disk.docAt? q = some doc →
      doc.IsExact ∧ s.disk.entry? (up ++ [DirectoryStore.draftName name]) = none) :
    Treats fails ranges tags q ((e.failingAt fails).treat ranges tags (ofPlace q)) s := by
  cases hcalls : fails (ofPlace q) with
  | some failure =>
    exact ⟨.error failure, s.disk, outcome_treat_of_told hcalls, .of_same ht (.told hcalls)⟩
  | none =>
    rw [treat_of_not_told hcalls]
    cases hfile : s.disk.fileAt? q with
    | none => exact treats_of_noFile hstore hopen ht hq hcalls hfile
    | some content =>
      by_cases hall : ranges = [] ∧ tags = none
      · obtain ⟨rfl, rfl⟩ := hall
        exact treats_of_chosen hstore hopen ht hne ⟨content, hfile, .inl ⟨rfl, rfl⟩⟩
          (not_failsAt_of_file ht hcalls hfile (.inl ⟨rfl, rfl⟩))
      cases hdoc : Document.ofBytes? content with
      | none =>
        exact treats_of_unreadable hstore hopen ht hcalls hfile hdoc (not_and_or.mp hall)
      | some doc =>
        by_cases haccepts : TagFilter.accepts tags doc.tags = true
        · by_cases hranges : ranges = []
          · subst hranges
            refine treats_of_chosen hstore hopen ht hne
              ⟨content, hfile, .inr ⟨doc, hdoc, haccepts⟩⟩
              (not_failsAt_of_file ht hcalls hfile (.inr ⟨doc, hdoc, fun _ _ _ _ hhas => ?_⟩))
            obtain ⟨k, -, hin⟩ := hhas
            cases hin
          · obtain ⟨up, name, rfl⟩ := (List.eq_nil_or_concat' q).resolve_left hne
            have hdocAt : s.disk.docAt? (up ++ [name]) = some doc := by
              rw [docAt?, hfile, Option.bind_some, hdoc]
            obtain ⟨hexact, hnoDraft⟩ := hdocs hranges up name doc rfl hdocAt
            exact treats_of_accepted hstore hopen ht hcalls hranges hdocAt haccepts hexact hnoDraft
        · exact treats_of_notAccepted hstore hopen ht hfile hdoc haccepts
            (not_failsAt_of_file ht hcalls hfile
              (.inr ⟨doc, hdoc, fun _ _ _ h => absurd h haccepts⟩))

end Directory

/-! ### All targets -/

theorem Treated.nil (ht : d.IsPlainTree) : Treated fails ranges tags d [] d (.ok ()) :=
  ⟨ht, nofun, fun _ _ h => absurd h List.not_mem_nil, fun _ _ h => absurd h List.not_mem_nil,
    fun _ _ => rfl⟩

/-- **The others come after the first target**, and none of them is above it. -/
theorem Treated.cons (h : Treated fails ranges tags d [q] d₁ r)
    (h' : Treated fails ranges tags d₁ rest d' r') (hrest : ∀ p ∈ rest, ¬p <+: q) :
    Treated fails ranges tags d (q :: rest) d' (r.bind fun _ => r') := by
  -- The first target and what is above it stay from then on.
  have habove : ∀ p, p <+: q → d'.entry? p = d₁.entry? p := fun p hp =>
    h'.kept p fun hmem => absurd hp (hrest p hmem)
  have hfirst : ∀ failure,
      FailsAt fails ranges tags d d₁ q failure ↔ FailsAt fails ranges tags d d' q failure :=
    fun failure => FailsAt.congr rfl fun p hp _ => habove p hp
  -- The others are found as they were.
  have hsame : ∀ p, p ≠ q → d₁.entry? p = d.entry? p := fun p hp =>
    h.kept p fun hmem => absurd (List.mem_singleton.mp hmem) hp
  have hne : ∀ p ∈ rest, p ≠ q := fun p hp heq => hrest p hp (heq ▸ List.prefix_refl _)
  have hothers : ∀ p ∈ rest, ∀ failure,
      FailsAt fails ranges tags d₁ d' p failure ↔ FailsAt fails ranges tags d d' p failure :=
    fun p hp failure => FailsAt.congr (hsame p (hne p hp)).symm fun _ _ _ => rfl
  have hchosen : ∀ p ∈ rest, Chosen ranges tags d₁ p ↔ Chosen ranges tags d p := fun p hp =>
    Chosen.congr (hsame p (hne p hp)).symm
  have hfile : ∀ p, d'.entry? p = d₁.entry? p → d'.docAt? p = d₁.docAt? p := fun p hp => by
    rw [docAt?, docAt?, fileAt?, fileAt?, hp]
  have hdoc : ∀ p ∈ rest, d₁.docAt? p = d.docAt? p := fun p hp => by
    rw [docAt?, docAt?, fileAt?, fileAt?, hsame p (hne p hp)]
  refine ⟨h'.isPlainTree, ?_, fun hnil => List.forall_mem_cons.mpr ⟨fun hfree hwhy => ?_,
    fun p hp hfree hwhy => ?_⟩, fun hranges => List.forall_mem_cons.mpr ⟨fun hfree hwhy => ?_,
    fun p hp hfree hwhy => ?_⟩, fun p hp => ?_⟩
  · refine (h.result.congr fun p hp failure => ?_).cons (h'.result.congr hothers)
    rw [List.mem_singleton.mp hp, hfirst]
  · rw [habove q (List.prefix_refl _)]
    exact h.removed hnil q List.mem_cons_self
      (fun failure => mt (hfirst failure).mp (hfree failure)) hwhy
  · exact h'.removed hnil p hp (fun failure => mt (hothers p hp failure).mp (hfree failure))
      ((hchosen p hp).mpr hwhy)
  · rw [hfile q (habove q (List.prefix_refl _))]
    exact h.trimmed hranges q List.mem_cons_self
      (fun failure => mt (hfirst failure).mp (hfree failure)) hwhy
  · rw [← hdoc p hp]
    exact h'.trimmed hranges p hp (fun failure => mt (hothers p hp failure).mp (hfree failure))
      ((hchosen p hp).mpr hwhy)
  · by_cases hpq : p = q
    · subst hpq
      rw [habove p (List.prefix_refl _)]
      refine h.kept p fun _ => ?_
      simpa only [hfirst] using hp List.mem_cons_self
    · rw [← hsame p hpq]
      refine h'.kept p fun hmem => ?_
      simpa only [hothers p hmem, hchosen p hmem] using hp (List.mem_cons_of_mem q hmem)

section Directory

variable {e : Engine DirectoryStore} {chunkSize : Nat}

/-- **What becomes of all targets**, whatever stands there: none of them is above one that had
its turn before. -/
theorem treated_of_onEach (fails : FilePath → Option Failure) (ranges : List KeyRange)
    (tags : Option TagFilter) (hstore : e.store = DirectoryStore.store chunkSize)
    {s : DirectoryStore} (hopen : s.closed = false) (ht : s.disk.IsPlainTree) {places : List Place}
    (hnames : ∀ q ∈ places, q ≠ [] ∧ ∀ n ∈ q, isEntryName n = true)
    (horder : places.Pairwise fun p q => ¬q <+: p)
    (hdocs : ranges ≠ [] → ∀ q ∈ places, ∀ up name doc, q = up ++ [name] →
      s.disk.docAt? q = some doc →
        doc.IsExact ∧ s.disk.entry? (up ++ [DirectoryStore.draftName name]) = none) :
    ∃ r d', outcome (onEach ((e.failingAt fails).treat ranges tags) (places.map ofPlace)) s =
        (r, { s with disk := d' }) ∧ Treated fails ranges tags s.disk places d' r := by
  induction places generalizing s with
  | nil => exact ⟨.ok (), s.disk, rfl, .nil ht⟩
  | cons q rest ih =>
    obtain ⟨hq, hrest⟩ := List.forall_mem_cons.mp hnames
    obtain ⟨habove, horder⟩ := List.pairwise_cons.mp horder
    obtain ⟨r, d₁, hfirst, htreated⟩ :
        Treats fails ranges tags q ((e.failingAt fails).treat ranges tags (ofPlace q)) s :=
      treats_treat hstore hopen ht hq.2 hq.1 fun hranges => hdocs hranges q List.mem_cons_self
    have hdocs₁ : ranges ≠ [] → ∀ p ∈ rest, ∀ up name doc, p = up ++ [name] →
        d₁.docAt? p = some doc →
          doc.IsExact ∧ d₁.entry? (up ++ [DirectoryStore.draftName name]) = none := by
      intro hranges p hp up name doc hsplit hdoc
      have hsame : d₁.entry? p = s.disk.entry? p := htreated.kept p fun hmem =>
        absurd (List.mem_singleton.mp hmem ▸ List.prefix_refl q) (habove p hp)
      rw [docAt?, fileAt?, hsame, ← fileAt?, ← docAt?] at hdoc
      obtain ⟨hexact, hnoDraft⟩ :=
        hdocs hranges p (List.mem_cons_of_mem q hp) up name doc hsplit hdoc
      -- Where nothing is there is nothing to remove or to trim.
      refine ⟨hexact, (htreated.kept _ fun _ => .inr ?_).trans hnoDraft⟩
      rintro ⟨content, hcontent, -⟩
      rw [fileAt?_eq_some_iff, hnoDraft] at hcontent
      cases hcontent
    obtain ⟨r', d', hothers, htreated'⟩ :=
      ih (s := { s with disk := d₁ }) hopen htreated.isPlainTree hrest horder hdocs₁
    refine ⟨_, d', ?_, htreated.cons htreated' habove⟩
    rw [List.map_cons, outcome_onEach_cons]
    simp only [hfirst, hothers]
    cases r <;> rfl

end Directory

end Engine

end KeyedSeries

import KeyedSeries.Proofs.Disk.Walk
import KeyedSeries.Proofs.Store.SeriesFiles

/-!
# Files in any tree

A tree may hold anything: documents, files that are none, and directories where a
series is asked for. Whatever it holds but links, **a series that is written successfully changes
its own file, as a document takes cells** (`KeyedSeries.Document.upsert?`), **and no
other file** (`KeyedSeries.DirectoryStore.files_of_writeSeries`), apart from hidden
ones; and so do several series, each of them with its own file
(`KeyedSeries.DirectoryStore.files_of_writeColumns`).

How far a document comes that is saved, whatever is in its way, is said once
(`KeyedSeries.DirectoryStore.saves_save`): it is not written, it stays in its hidden
file, or it is in its file.
-/

namespace KeyedSeries

open FilePath

/-! ### Documents with cells added -/

/-- A document, or nothing, with the cells and the tags of a column. What is not there
is made with the type of the column, if the column has cells. -/
def Document.upsert? (old : Option Document) (series : SeriesInfo) (cells : List (Key × Value)) :
    Option Document :=
  match old with
  | none => if cells.isEmpty then none
    else some ⟨series.dataType, series.tags, addCells .empty cells⟩
  | some doc => some ⟨doc.dataType, series.tags, addCells doc.records cells⟩

namespace Disk

/-- The content of the file at a place. -/
def fileAt? (d : Disk) (q : Place) : Option Bytes :=
  match d.entry? q with
  | some (.file content) => some content
  | _ => none

/-- The document of the file at a place. -/
def docAt? (d : Disk) (q : Place) : Option Document := (d.fileAt? q).bind Document.ofBytes?

variable {d : Disk} {q : Place} {content : Bytes}

theorem fileAt?_eq_some_iff : d.fileAt? q = some content ↔ d.entry? q = some (.file content) := by
  rw [fileAt?]
  split
  · next c h => simp [h]
  · next h =>
    exact ⟨nofun, fun hfile => absurd hfile (h content)⟩

/-- The names that lead to a file that is there fit. -/
theorem IsTree.fits_of_isSome_fileAt? (ht : d.IsTree) (h : (d.fileAt? q).isSome = true) :
    ∀ n ∈ q, Fits n := by
  obtain ⟨content, hcontent⟩ := Option.isSome_iff_exists.mp h
  exact ht.fits (fileAt?_eq_some_iff.mp hcontent)

/-- A document that was written is there if it can be read. -/
theorem isSome_docAt?_iff {doc : Document} (h : d.fileAt? q = some doc.bytes) :
    (d.docAt? q).isSome = true ↔ doc.IsFinite := by
  rw [docAt?, h, Option.bind_some]
  by_cases hfinite : doc.IsFinite
  · exact iff_of_true (by rw [Document.ofBytes?_bytes_of_isFinite hfinite]; rfl) hfinite
  · refine iff_of_false ?_ hfinite
    rw [Document.ofBytes?_bytes_of_not_isFinite hfinite]
    exact Bool.false_ne_true

end Disk

namespace DirectoryStore

open Disk

variable {d d' : Disk} {q : Place} {name : String}

/-! ### Loading -/

/-- A file that is no document cannot be loaded. -/
theorem load_of_unreadable (ht : d.IsTree) {content : Bytes}
    (hfile : d.fileAt? q = some content) (hdoc : Document.ofBytes? content = none) :
    load d (ofPlace q) = .error .unreadable := by
  have hfile := fileAt?_eq_some_iff.mp hfile
  have hway : d.Passable q := ht.passable_of_some hfile fun _ => nofun
  have hfits := ht.fits hfile
  rw [load, isDir_ofPlace ht hfits hway, read_ofPlace ht hfits hway, hfile]
  simp [hdoc]

/-- What is loaded from a file is its document. -/
theorem load_of_fileAt? (ht : d.IsTree) {content : Bytes} {doc : Document}
    (hfile : d.fileAt? q = some content) (hdoc : Document.ofBytes? content = some doc) :
    load d (ofPlace q) = .ok (some doc) :=
  have hentry := fileAt?_eq_some_iff.mp hfile
  load_of_file ht (ht.fits hentry) hentry hdoc

/-- **What is loaded is the document of the file**, if there is a file at all. -/
theorem load_eq_ok (ht : d.IsPlainTree) (hq : ∀ n ∈ q, isEntryName n = true)
    {old : Option Document} (h : load d (ofPlace q) = .ok old) :
    d.docAt? q = old ∧ (old = none → d.fileAt? q = none) := by
  cases hfile : d.fileAt? q with
  | some content =>
    rw [docAt?, hfile, Option.bind_some]
    cases hdoc : Document.ofBytes? content with
    | none =>
      rw [load_of_unreadable ht.toIsTree hfile hdoc] at h
      cases h
    | some doc =>
      rw [load_of_fileAt? ht.toIsTree hfile hdoc] at h
      cases h
      exact ⟨rfl, nofun⟩
  | none =>
    rw [docAt?, hfile, Option.bind_none]
    refine ⟨?_, fun _ => rfl⟩
    rw [load] at h
    split at h
    · cases h
      rfl
    · split at h
      · next content hread =>
        -- What was read is the content of a file at the place.
        rw [Disk.read] at hread
        split at hread
        · cases hread
        · next place content' hlocate =>
          obtain ⟨-, -, hspot⟩ := locate_eq_ok ht hq hlocate
          rw [fileAt?_eq_some_iff.mpr (spot_eq_found hspot).2] at hfile
          cases hfile
        · cases hread
        · cases hread
      · cases h
        rfl
      · cases h

/-! ### Saving -/

/-- The directories around the file of a document were made, and there is room for its hidden
file in the last one. -/
structure IsReady (d : Disk) (q : Place) (name : String) (d₁ : Disk) : Prop where
  /-- The directories were made. -/
  made : d.makeDirs (ofPlace q) = (.ok (), d₁)
  /-- Apart from them nothing has changed. -/
  grown : Grown (· <+: q) d d₁
  /-- The last one is there. -/
  dir : d₁.entry? q = some .dir
  /-- The name of the hidden file fits. -/
  fits : Fits (draftName name)
  /-- At most a file is in the place of the hidden file. -/
  free : d₁.TakesFile (q ++ [draftName name])

/-- **How far a document comes** on its way into its file, with what is answered and what is
left then. -/
inductive Saves (d : Disk) (q : Place) (name : String) (doc : Document) :
    Except Failure Unit × Disk → Prop
  /-- It is not written: a directory could not be made, or there is no room for the hidden
  file. -/
  | unwritten {failure : Failure} {d₁ : Disk} (hgrown : Grown (· <+: q) d d₁) :
    Saves d q name doc (.error failure, d₁)
  /-- It is in the hidden file, which cannot take the place of the file. -/
  | hidden {failure : Failure} {d₁ : Disk} (hready : IsReady d q name d₁) :
    Saves d q name doc (.error failure, d₁.put (q ++ [draftName name]) (.file doc.bytes))
  /-- It is in the file. -/
  | inPlace {d₁ : Disk} (hready : IsReady d q name d₁) (hfits : ∀ n ∈ q ++ [name], Fits n)
    (htarget : d₁.TakesFile (q ++ [name])) :
    Saves d q name doc (.ok (), ((d₁.put (q ++ [draftName name]) (.file doc.bytes)).drop
      (q ++ [draftName name])).put (q ++ [name]) (.file doc.bytes))

/-- **To save a document** comes to one of these, whatever is in its way. -/
theorem saves_save (ht : d.IsPlainTree) (hq : ∀ n ∈ q ++ [name], isEntryName n = true)
    (doc : Document) : Saves d q name doc (save d (ofPlace (q ++ [name])) doc) := by
  have hq' : ∀ n ∈ q, isEntryName n = true := fun n hn => hq n (List.mem_append_left _ hn)
  have hslash : '/' ∉ name.toList := (isEntryName_iff.mp (hq name (by simp))).2.1
  have hdraft : ∀ n ∈ q ++ [draftName name], isEntryName n = true :=
    List.forall_mem_append.mpr ⟨hq', List.forall_mem_singleton.mpr (isEntryName_draftName hslash)⟩
  have hne : q ++ [name] ≠ q ++ [draftName name] := by simpa using (draftName_ne name).symm
  have hgrown := grown_makeDirs_ofPlace ht hq'
  rw [save, parent?_ofPlace hq]
  simp only [fileName?_ofPlace hq, child_ofPlace hq']
  rcases hmade : d.makeDirs (ofPlace q) with ⟨_ | u, d₁⟩
  · rw [hmade] at hgrown
    exact .unwritten hgrown
  · rw [hmade] at hgrown
    have ht₁ : d₁.IsPlainTree := hgrown.isPlainTree ht
    simp only [putInPlace]
    split
    · exact .unwritten hgrown
    · next d₂ hwrite =>
      obtain ⟨hfits, hdir, hfree⟩ := write_eq_ok ht₁ hdraft hwrite
      have hready : IsReady d q name d₁ := ⟨hmade, hgrown, hdir, hfits _ (by simp), hfree⟩
      rw [write_ofPlace ht₁.toIsTree hfits hdir hfree] at hwrite
      cases hwrite
      have ht₂ := ht₁.put_file hdir hready.fits hfree.noDir doc.bytes
      split
      · exact .hidden hready
      · next d₃ hrename =>
        obtain ⟨hfits', htarget⟩ := rename_eq_ok ht₂ hq hrename
        have hdir₂ : Disk.entry? (d₁.put (q ++ [draftName name]) (.file doc.bytes)) q =
            some .dir := by rw [entry?_put (by simp), if_neg (by simp), hdir]
        have hfile₂ : Disk.entry? (d₁.put (q ++ [draftName name]) (.file doc.bytes))
            (q ++ [draftName name]) = some (.file doc.bytes) := by
          rw [entry?_put (by simp), if_pos rfl]
        rw [rename_ofPlace ht₂.toIsTree hfits hfile₂ hfits' hdir₂ htarget] at hrename
        cases hrename
        -- The hidden file was not in the place of the file.
        exact .inPlace hready hfits' (htarget.congr (by rw [entry?_put (by simp), if_neg hne]))

/-- What a document that is saved tells: nothing was in the way of its directories, of
its hidden file, and of its file. -/
theorem save_eq_ok (ht : d.IsPlainTree) (hq : ∀ n ∈ q ++ [name], isEntryName n = true)
    {doc : Document} (h : save d (ofPlace (q ++ [name])) doc = (.ok (), d')) :
    (∀ n ∈ q ++ [name], Fits n) ∧ Fits (draftName name) ∧ d.Vacant q ∧
      d.TakesFile (q ++ [draftName name]) ∧ d.TakesFile (q ++ [name]) := by
  have hq' : ∀ n ∈ q, isEntryName n = true := fun n hn => hq n (List.mem_append_left _ hn)
  have hsaves := saves_save ht hq doc
  rw [h] at hsaves
  cases hsaves with
  | inPlace hready hfits htarget =>
    have hbehind := fun n => (hready.grown.behind n).symm
    exact ⟨hfits, hready.fits, (makeDirs_eq_ok ht hq' hready.made).2,
      hready.free.congr (hbehind _), htarget.congr (hbehind _)⟩

/-- **A document that is saved** is the content of its file afterwards, and no other
file has changed, apart from the hidden one that is gone. -/
theorem files_of_save (ht : d.IsPlainTree) (hq : ∀ n ∈ q ++ [name], isEntryName n = true)
    {doc : Document} (h : save d (ofPlace (q ++ [name])) doc = (.ok (), d')) :
    d'.IsPlainTree ∧ ∀ r, r ≠ q ++ [draftName name] →
      d'.fileAt? r = if r = q ++ [name] then some doc.bytes else d.fileAt? r := by
  obtain ⟨hfits, hdraft, hway, hfree, htarget⟩ := save_eq_ok ht hq h
  obtain ⟨d₁, hrun, ht', hd'⟩ := save_ofPlace ht.toIsTree hfits hdraft hway hfree htarget doc
  obtain rfl : d' = d₁ := by simpa [h] using hrun
  refine ⟨⟨ht', fun r t hr => ?_⟩, fun r hr => ?_⟩
  · rw [hd'] at hr
    split at hr
    · cases hr
    · split at hr
      · cases hr
      · split at hr
        · cases hr
        · exact ht.noLinks r t hr
  · rw [fileAt?, hd', if_neg hr]
    by_cases htarget : r = q ++ [name]
    · rw [if_pos htarget, if_pos htarget]
    · rw [if_neg htarget, if_neg htarget]
      by_cases hpre : r <+: q
      · -- On the way there was no file before either.
        rw [if_pos hpre, fileAt?]
        rcases hway r hpre with h | h <;> rw [h]
      · rw [if_neg hpre, fileAt?]

/-! ### Series -/

/-- Whether a place is that of no hidden file. -/
def IsShown (r : Place) : Prop := ∀ n ∈ r.getLast?, isHidden n = false

theorem IsShown.ne_draft (h : IsShown (q ++ [name])) (p : Place) (n : String) :
    q ++ [name] ≠ p ++ [draftName n] := by
  intro heq
  have hhidden := h (draftName n) (by rw [heq]; simp)
  simp [isHidden, draftName] at hhidden

/-- The records that are added are the cells, and they are of the document's type. -/
theorem addRecords_eq_ok {file : FilePath} {doc doc' : Document} {type : DataType}
    {cells : List (Key × Value)} (h : addRecords file doc (recordsOf type cells) = .ok doc') :
    doc' = { doc with records := addCells doc.records cells } ∧
      (cells ≠ [] → type = doc.dataType) := by
  induction cells generalizing doc with
  | nil =>
    cases h
    exact ⟨rfl, fun hne => absurd rfl hne⟩
  | cons cell rest ih =>
    rw [recordsOf, List.map_cons, addRecords] at h
    split at h
    · next htypes => exact ⟨(ih h).1, fun _ => htypes.1⟩
    · cases h

/-- A series that is written is saved with the cells, unless there is nothing to
make. -/
theorem writeSeries_eq_ok {file : FilePath} {old : Option Document} {series : SeriesInfo}
    {cells : List (Key × Value)} (hload : load d file = .ok old)
    (h : writeSeries d file (recordsOf series.dataType cells) series.tags = (.ok (), d')) :
    (∀ doc, old = some doc → cells ≠ [] → series.dataType = doc.dataType) ∧
      (Document.upsert? old series cells = none ∧ d' = d ∨
        ∃ doc, Document.upsert? old series cells = some doc ∧ save d file doc = (.ok (), d')) := by
  rw [writeSeries, hload] at h
  cases old with
  | none =>
    cases cells with
    | nil =>
      cases h
      exact ⟨by simp, .inl ⟨rfl, rfl⟩⟩
    | cons cell rest =>
      have hfirst : (recordsOf series.dataType (cell :: rest)).head? =
          some ⟨cell.1, series.dataType, cell.2⟩ := rfl
      simp only [hfirst, Option.map_some] at h
      split at h
      · cases h
      · next doc hadd =>
        obtain ⟨rfl, -⟩ := addRecords_eq_ok hadd
        exact ⟨by simp, .inr ⟨_, rfl, h⟩⟩
  | some doc =>
    simp only at h
    split at h
    · cases h
    · next doc' hadd =>
      obtain ⟨rfl, htype⟩ := addRecords_eq_ok hadd
      refine ⟨?_, .inr ⟨_, rfl, h⟩⟩
      intro doc'' heq hne
      cases heq
      exact htype hne

/-- **A series that is written** changes its file as a document takes cells, and no
other one, apart from hidden ones. -/
theorem files_of_writeSeries (ht : d.IsPlainTree) (hq : ∀ n ∈ q, isEntryName n = true)
    (hne : q ≠ []) {series : SeriesInfo} {cells : List (Key × Value)}
    (h : writeSeries d (ofPlace q) (recordsOf series.dataType cells) series.tags = (.ok (), d')) :
    d'.IsPlainTree ∧
      (∀ doc, d.docAt? q = some doc → cells ≠ [] → series.dataType = doc.dataType) ∧
      ∀ r, IsShown r → d'.fileAt? r =
        if r = q then (Document.upsert? (d.docAt? q) series cells).map Document.bytes
        else d.fileAt? r := by
  obtain ⟨p, name, rfl⟩ := (List.eq_nil_or_concat' q).resolve_left hne
  cases hload : load d (ofPlace (p ++ [name])) with
  | error e =>
    rw [writeSeries, hload] at h
    cases h
  | ok old =>
    obtain ⟨hdoc, hnone⟩ := load_eq_ok ht hq hload
    obtain ⟨htype, hwritten⟩ := writeSeries_eq_ok hload h
    rw [hdoc]
    rcases hwritten with ⟨hskip, rfl⟩ | ⟨doc, hupsert, hsave⟩
    · -- Nothing was there, and nothing is made.
      obtain rfl : old = none := by
        cases old with
        | none => rfl
        | some doc => cases hskip
      refine ⟨ht, htype, fun r _ => ?_⟩
      rw [hskip, Option.map_none]
      split
      · next heq => rw [heq, hnone rfl]
      · rfl
    · obtain ⟨ht', hfiles⟩ := files_of_save ht hq hsave
      refine ⟨ht', htype, fun r hr => ?_⟩
      rw [hfiles r fun heq => (heq ▸ hr).ne_draft _ _ rfl, hupsert, Option.map_some]

/-! ### Several series -/

/-- A success with all of them is one with the first one, and then with the rest. -/
theorem forAll_cons_eq_ok_iff {α : Type} {f : Disk → α → Except Failure Unit × Disk} {a : α}
    {rest : List α} : forAll f d (a :: rest) = (.ok (), d') ↔
      ∃ d₁, f d a = (.ok (), d₁) ∧ forAll f d₁ rest = (.ok (), d') := by
  rw [forAll]
  rcases f d a with ⟨_ | u, d₁⟩
  · simp
  · exact ⟨fun h => ⟨d₁, rfl, h⟩, fun ⟨_, hf, h⟩ => by cases hf; exact h⟩

/-- A success with two lists of them is one with the first, and then with the second. -/
theorem forAll_append_eq_ok_iff {α : Type} {f : Disk → α → Except Failure Unit × Disk}
    {l l' : List α} : forAll f d (l ++ l') = (.ok (), d') ↔
      ∃ d₁, forAll f d l = (.ok (), d₁) ∧ forAll f d₁ l' = (.ok (), d') := by
  induction l generalizing d with
  | nil => exact ⟨fun h => ⟨d, rfl, h⟩, fun ⟨_, hnil, h⟩ => by cases hnil; exact h⟩
  | cons a rest ih =>
    simp only [List.cons_append, forAll_cons_eq_ok_iff, ih]
    exact ⟨fun ⟨d₁, ha, d₂, hrest, h⟩ => ⟨d₂, ⟨d₁, ha, hrest⟩, h⟩,
      fun ⟨d₂, ⟨d₁, ha, hrest⟩, h⟩ => ⟨d₁, ha, d₂, hrest, h⟩⟩

theorem forAll_map {α β : Type} (f : Disk → β → Except Failure Unit × Disk) (g : α → β) (d : Disk)
    (l : List α) : forAll f d (l.map g) = forAll (fun d a => f d (g a)) d l := by
  induction l generalizing d with
  | nil => rfl
  | cons a rest ih =>
    rw [List.map_cons, forAll, forAll]
    rcases f d (g a) with ⟨_ | u, d₁⟩
    · rfl
    · exact ih d₁

/-- Writes a column into the file of a place. -/
def writeColumn (place : SeriesInfo → Place) (d : Disk) (column : SeriesInfo × List (Key × Value)) :
    Except Failure Unit × Disk :=
  writeSeries d (ofPlace (place column.1)) (recordsOf column.1.dataType column.2) column.1.tags

/-- A place for a file: a name that is not hidden stands at the end of names such as
entries can have. -/
structure IsFilePlace (q : Place) : Prop where
  /-- The names are such as entries can have. -/
  isEntryName : ∀ n ∈ q, isEntryName n = true
  /-- It is not the root. -/
  ne_nil : q ≠ []
  /-- It is not hidden. -/
  isShown : IsShown q

/-- Columns that are written change no files but their own, apart from hidden ones. -/
theorem others_of_writeColumns (ht : d.IsPlainTree) {place : SeriesInfo → Place}
    {columns : List (SeriesInfo × List (Key × Value))}
    (hplaces : ∀ column ∈ columns, IsFilePlace (place column.1))
    (h : forAll (writeColumn place) d columns = (.ok (), d')) :
    d'.IsPlainTree ∧ ∀ r, IsShown r → (∀ column ∈ columns, r ≠ place column.1) →
      d'.fileAt? r = d.fileAt? r := by
  induction columns generalizing d with
  | nil =>
    cases h
    exact ⟨ht, fun _ _ _ => rfl⟩
  | cons column rest ih =>
    obtain ⟨hplace, hrest⟩ := List.forall_mem_cons.mp hplaces
    obtain ⟨d₁, hwrite, h⟩ := forAll_cons_eq_ok_iff.mp h
    obtain ⟨ht₁, -, hfiles⟩ := files_of_writeSeries ht hplace.isEntryName hplace.ne_nil hwrite
    obtain ⟨ht', hothers⟩ := ih ht₁ hrest h
    refine ⟨ht', fun r hr hall => ?_⟩
    obtain ⟨hne, hall⟩ := List.forall_mem_cons.mp hall
    rw [hothers r hr hall, hfiles r hr, if_neg hne]

/-- A column alone in its file is taken as a document takes cells, whatever stands before and
behind it. -/
theorem taken_of_alone (ht : d.IsPlainTree) {place : SeriesInfo → Place}
    {before after : List (SeriesInfo × List (Key × Value))}
    {column : SeriesInfo × List (Key × Value)}
    (hplaces : ∀ other ∈ before ++ column :: after, IsFilePlace (place other.1))
    (halone : ∀ other ∈ before ++ after, place other.1 ≠ place column.1)
    (h : forAll (writeColumn place) d (before ++ column :: after) = (.ok (), d')) :
    (∀ doc, d.docAt? (place column.1) = some doc → column.2 ≠ [] →
        column.1.dataType = doc.dataType) ∧
      d'.fileAt? (place column.1) =
        (Document.upsert? (d.docAt? (place column.1)) column.1 column.2).map Document.bytes := by
  simp only [List.forall_mem_append, List.forall_mem_cons] at hplaces halone
  obtain ⟨hbefore, hplace, hafter⟩ := hplaces
  obtain ⟨hneBefore, hneAfter⟩ := halone
  obtain ⟨d₁, hfirst, h⟩ := forAll_append_eq_ok_iff.mp h
  obtain ⟨d₂, hcolumn, hlast⟩ := forAll_cons_eq_ok_iff.mp h
  obtain ⟨ht₁, hothers₁⟩ := others_of_writeColumns ht hbefore hfirst
  obtain ⟨ht₂, htype, hfiles⟩ :=
    files_of_writeSeries ht₁ hplace.isEntryName hplace.ne_nil hcolumn
  obtain ⟨-, hothers⟩ := others_of_writeColumns ht₂ hafter hlast
  -- The columns before it leave its document as it was, and those behind it leave its file.
  have hdoc : d₁.docAt? (place column.1) = d.docAt? (place column.1) := by
    rw [docAt?, hothers₁ _ hplace.isShown fun other hother => (hneBefore other hother).symm, docAt?]
  rw [hdoc] at htype hfiles
  refine ⟨htype, ?_⟩
  rw [hothers _ hplace.isShown fun other hother => (hneAfter other hother).symm,
    hfiles _ hplace.isShown, if_pos rfl]

/-- Each of them, written to its own file, is taken as a document takes cells. -/
theorem taken_of_writeColumns (ht : d.IsPlainTree) {place : SeriesInfo → Place}
    {columns : List (SeriesInfo × List (Key × Value))}
    (hplaces : ∀ column ∈ columns, IsFilePlace (place column.1))
    (hdistinct : (columns.map fun column => place column.1).Nodup)
    (h : forAll (writeColumn place) d columns = (.ok (), d')) :
    ∀ column ∈ columns,
      (∀ doc, d.docAt? (place column.1) = some doc → column.2 ≠ [] →
        column.1.dataType = doc.dataType) ∧
      d'.fileAt? (place column.1) =
        (Document.upsert? (d.docAt? (place column.1)) column.1 column.2).map Document.bytes := by
  intro column hcolumn
  obtain ⟨before, after, rfl⟩ := List.append_of_mem hcolumn
  refine taken_of_alone ht hplaces (fun other hother heq => ?_) h
  rw [List.map_append, List.map_cons, List.nodup_middle, ← List.map_append] at hdistinct
  exact (List.nodup_cons.mp hdistinct).1 (List.mem_map.mpr ⟨other, hother, heq⟩)

/-- **Columns that are written**, each to its own file, change these files as documents
take cells, and no other ones, apart from hidden ones. -/
theorem files_of_writeColumns (ht : d.IsPlainTree) {place : SeriesInfo → Place}
    {columns : List (SeriesInfo × List (Key × Value))}
    (hplaces : ∀ column ∈ columns, IsFilePlace (place column.1))
    (hdistinct : (columns.map fun column => place column.1).Nodup)
    (h : forAll (writeColumn place) d columns = (.ok (), d')) :
    d'.IsPlainTree ∧
      (∀ column ∈ columns, ∀ doc, d.docAt? (place column.1) = some doc → column.2 ≠ [] →
        column.1.dataType = doc.dataType) ∧
      (∀ column ∈ columns, d'.fileAt? (place column.1) =
        (Document.upsert? (d.docAt? (place column.1)) column.1 column.2).map Document.bytes) ∧
      ∀ r, IsShown r → (∀ column ∈ columns, r ≠ place column.1) → d'.fileAt? r = d.fileAt? r := by
  have htaken := taken_of_writeColumns ht hplaces hdistinct h
  obtain ⟨ht', hothers⟩ := others_of_writeColumns ht hplaces h
  exact ⟨ht', fun column hcolumn => (htaken column hcolumn).1,
    fun column hcolumn => (htaken column hcolumn).2, hothers⟩

/-! ### Listing -/

/-- **The files that are listed** are those below the place that the path of the directory
leads to where no name is hidden. Their paths go on from that path. -/
theorem mem_listFiles_iff {base file : FilePath} :
    file ∈ listFiles d base true ↔ ∃ place names, d.dirPlace? base = some place ∧ names ≠ [] ∧
      names.any isHidden = false ∧ (d.fileAt? (place ++ names)).isSome = true ∧
        file = names.foldl child base := by
  rw [listFiles]
  cases hdir : d.dirPlace? base with
  | none => simp
  | some place =>
    simp only [List.mem_filterMap, Prod.exists, mem_below_iff, Option.some.injEq,
      exists_and_left, exists_eq_left']
    constructor
    · rintro ⟨names, e, ⟨hne, hentry⟩, hlisted⟩
      split at hlisted
      · next content =>
        simp only [Bool.true_or, Bool.true_and, Option.ite_none_right_eq_some, Option.some.injEq,
          Bool.not_eq_true'] at hlisted
        exact ⟨names, hne, hlisted.1, by rw [fileAt?_eq_some_iff.mpr hentry]; rfl, hlisted.2.symm⟩
      · cases hlisted
    · rintro ⟨names, hne, hshown, hfile, rfl⟩
      obtain ⟨content, hcontent⟩ := Option.isSome_iff_exists.mp hfile
      exact ⟨names, .file content, ⟨hne, fileAt?_eq_some_iff.mp hcontent⟩, by simp [hshown]⟩

/-- So it is where the path of a place is listed. -/
theorem mem_listFiles (ht : d.IsPlainTree) (hq : ∀ n ∈ q, isEntryName n = true) {file : FilePath} :
    file ∈ listFiles d (ofPlace q) true ↔ ∃ names, names ≠ [] ∧ names.any isHidden = false ∧
      (d.fileAt? (q ++ names)).isSome = true ∧ file = ofPlace (q ++ names) := by
  -- Below a place with a file the names are those of paths.
  have hpath : ∀ {names : List String}, (d.fileAt? (q ++ names)).isSome = true →
      names.foldl child (ofPlace q) = ofPlace (q ++ names) := fun hfile =>
    foldl_child_ofPlace (ht.fits_of_isSome_fileAt? hfile)
  rw [mem_listFiles_iff]
  constructor
  · rintro ⟨place, names, hplace, hne, hshown, hfile, rfl⟩
    obtain ⟨rfl, -⟩ := dirPlace?_eq_some ht hq hplace
    exact ⟨names, hne, hshown, hfile, hpath hfile⟩
  · rintro ⟨names, hne, hshown, hfile, rfl⟩
    obtain ⟨content, hcontent⟩ := Option.isSome_iff_exists.mp hfile
    have hentry := ht.dir_of_append hne (fileAt?_eq_some_iff.mp hcontent)
    have hway := ht.passable_of_some hentry fun _ heq => Entry.noConfusion heq
    refine ⟨q, names, ?_, hne, hshown, hfile, (hpath hfile).symm⟩
    rw [dirPlace?_ofPlace ht.toIsTree (ht.fits hentry) hway, if_pos hentry]

end DirectoryStore

end KeyedSeries

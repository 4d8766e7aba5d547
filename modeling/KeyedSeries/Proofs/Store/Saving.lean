import KeyedSeries.Proofs.Disk.Change
import KeyedSeries.Store.Directory

/-!
# Documents at places

What the store does with the file of a place, said entry by entry. A document is
saved by way of a hidden file, of which nothing is left
(`KeyedSeries.DirectoryStore.save_ofPlace`): **the file has the document, and there
are directories around it**. To remove a file, or a directory, is to take away what
stands at the place, and if nothing does, that is fine.
-/

namespace KeyedSeries.DirectoryStore

open Disk FilePath

variable {d : Disk} {q : Place} {name : String}

theorem draftName_ne (name : String) : draftName name ≠ name := by
  intro h
  have hlength := congrArg (·.toList.length) h
  simp [draftName] at hlength
  omega

/-- No step of a path takes the name of a hidden file for anything else. -/
theorem isEntryName_draftName (h : '/' ∉ name.toList) : isEntryName (draftName name) = true := by
  have hne : ∀ t : String, t.toList.length ≤ 2 → draftName name ≠ t := by
    rintro t ht rfl
    simp [draftName] at ht
  rw [isEntryName_iff, isName_iff]
  refine ⟨hne _ (by decide), ?_, hne _ (by decide), hne _ (by decide), hne _ (by decide)⟩
  simpa [draftName] using h

/-! ### Loading -/

/-- The document at a place is that of the file there. -/
theorem load_of_file (ht : d.IsTree) (hfits : ∀ n ∈ q, Fits n) {content : Bytes}
    {doc : Document} (hfile : d.entry? q = some (.file content))
    (hdoc : Document.ofBytes? content = some doc) : load d (ofPlace q) = .ok (some doc) := by
  have hway : d.Passable q := ht.passable_of_some hfile fun _ => nofun
  rw [load, isDir_ofPlace ht hfits hway, read_ofPlace ht hfits hway, hfile]
  simp [hdoc]

/-- Where no file is there is no document. -/
theorem load_of_vacant (ht : d.IsTree) (hfits : ∀ n ∈ q, Fits n) (hway : d.Vacant q) :
    load d (ofPlace q) = .ok none := by
  rw [load, isDir_ofPlace ht hfits hway.passable, read_ofPlace ht hfits hway.passable]
  rcases hway q (List.prefix_refl q) with h | h <;> simp [h]

/-! ### Saving -/

/-- **A document is saved** in a directory without leaving its hidden file. -/
theorem putInPlace_ofPlace (ht : d.IsTree) (hfits : ∀ n ∈ q ++ [name], Fits n)
    (hdraft : Fits (draftName name)) (hdir : d.entry? q = some .dir)
    (hfree : d.TakesFile (q ++ [draftName name])) (htarget : d.TakesFile (q ++ [name]))
    (doc : Document) :
    ∃ d', putInPlace d (ofPlace (q ++ [draftName name])) (ofPlace (q ++ [name])) doc =
        (.ok (), d') ∧ d'.IsTree ∧
      ∀ r, d'.entry? r =
        if r = q ++ [name] then some (.file doc.bytes)
        else if r = q ++ [draftName name] then none else d.entry? r := by
  have hname : Fits name := hfits name (by simp)
  have hq : ∀ n ∈ q, Fits n := fun n hn => hfits n (List.mem_append_left _ hn)
  have hne : q ++ [name] ≠ q ++ [draftName name] := by simpa using (draftName_ne name).symm
  have hfits' : ∀ n ∈ q ++ [draftName name], Fits n := by
    simpa [or_imp, forall_and] using ⟨hq, hdraft⟩
  -- The hidden file is written first.
  have hwrite := write_ofPlace ht hfits' hdir hfree doc.bytes
  obtain ⟨d₁, hd₁⟩ : ∃ d₁, d₁ = d.put (q ++ [draftName name]) (.file doc.bytes) := ⟨_, rfl⟩
  have ht₁ : d₁.IsTree := by
    rw [hd₁]
    exact ht.put hdir hdraft fun h => absurd h hfree.noDir
  have hentry₁ : ∀ r, d₁.entry? r =
      if r = q ++ [draftName name] then some (.file doc.bytes) else d.entry? r := by
    intro r
    rw [hd₁, entry?_put (by simp)]
  have hdraft₁ : d₁.entry? (q ++ [draftName name]) = some (.file doc.bytes) := by
    rw [hentry₁, if_pos rfl]
  have htarget₁ : d₁.entry? (q ++ [name]) = d.entry? (q ++ [name]) := by
    rw [hentry₁, if_neg hne]
  have hdir₁ : d₁.entry? q = some .dir := by rw [hentry₁, if_neg (by simp), hdir]
  -- Then it takes the place of the file.
  have hrename := rename_ofPlace ht₁ hfits' hdraft₁ hfits hdir₁
    (htarget.congr htarget₁)
  refine ⟨(d₁.drop (q ++ [draftName name])).put (q ++ [name]) (.file doc.bytes), ?_, ?_,
    fun r => ?_⟩
  · simp only [putInPlace, hwrite, ← hd₁, hrename]
  · refine (ht₁.drop hdraft₁).put ?_ hname fun h => ?_
    · rw [entry?_drop (by simp), if_neg (by simp), hdir₁]
    · rw [entry?_drop (by simp), if_neg hne, htarget₁] at h
      exact absurd h htarget.noDir
  · rw [hd₁, entry?_moved (by simp) (by simp)]

/-- **A saved document** is the content of its file, the directories around it are
there, and nothing else has changed. -/
theorem save_ofPlace (ht : d.IsTree) (hfits : ∀ n ∈ q ++ [name], Fits n)
    (hdraft : Fits (draftName name)) (hway : d.Vacant q)
    (hfree : d.TakesFile (q ++ [draftName name])) (htarget : d.TakesFile (q ++ [name]))
    (doc : Document) :
    ∃ d', save d (ofPlace (q ++ [name])) doc = (.ok (), d') ∧ d'.IsTree ∧
      ∀ r, d'.entry? r =
        if r = q ++ [name] then some (.file doc.bytes)
        else if r = q ++ [draftName name] then none
        else if r <+: q then some .dir else d.entry? r := by
  have hq : ∀ n ∈ q, Fits n := fun n hn => hfits n (List.mem_append_left _ hn)
  obtain ⟨d₁, hdirs, ht₁, hd₁⟩ := makeDirs_ofPlace ht hq hway
  -- The directories are made on the way, and nothing changes behind it.
  have hbehind : ∀ s, d₁.entry? (q ++ [s]) = d.entry? (q ++ [s]) := by
    intro s
    rw [hd₁, if_neg fun h => absurd h.length_le (by simp)]
  have hnames : ∀ n ∈ q ++ [name], isEntryName n = true := fun n hn => (hfits n hn).isEntryName
  obtain ⟨d₂, hput, ht₂, hd₂⟩ := putInPlace_ofPlace ht₁ hfits hdraft
    (by rw [hd₁, if_pos (List.prefix_refl q)]) (hfree.congr (hbehind _))
    (htarget.congr (hbehind _)) doc
  refine ⟨d₂, ?_, ht₂, fun r => by rw [hd₂, hd₁]⟩
  rw [save, parent?_ofPlace hnames]
  simp only [hdirs, fileName?_ofPlace hnames, child_ofPlace fun n hn => (hq n hn).isEntryName, hput]

/-- A document is not saved if the name of its hidden file is too long. -/
theorem save_of_longDraft (ht : d.IsTree) (hfits : ∀ n ∈ q ++ [name], Fits n)
    (hdraft : IsPlain (draftName name)) (hlong : nameLimit < (draftName name).utf8ByteSize)
    (hway : d.Vacant q) (doc : Document) :
    ∃ d', save d (ofPlace (q ++ [name])) doc = (.error (.io .invalidFilename), d') := by
  have hq : ∀ n ∈ q, Fits n := fun n hn => hfits n (List.mem_append_left _ hn)
  obtain ⟨d', hdirs, ht', hd'⟩ := makeDirs_ofPlace ht hq hway
  have hdir : d'.entry? q = some .dir := by rw [hd', if_pos (List.prefix_refl q)]
  have hnames : ∀ n ∈ q ++ [name], isEntryName n = true := fun n hn => (hfits n hn).isEntryName
  refine ⟨d', ?_⟩
  rw [save, parent?_ofPlace hnames]
  simp only [hdirs, fileName?_ofPlace hnames, child_ofPlace fun n hn => (hq n hn).isEntryName,
    putInPlace, write, locate_of_tooLong ht' hdraft hlong hdir]

/-- A file is taken away. -/
theorem erase_of_file (ht : d.IsTree) (hfits : ∀ n ∈ q, Fits n) {content : Bytes}
    (hfile : d.entry? q = some (.file content)) : erase d (ofPlace q) = (.ok (), d.drop q) := by
  have hdir : d.isDir (ofPlace q) = false := by
    rw [isDir_ofPlace ht hfits (ht.passable_of_some hfile fun _ => nofun), hfile]
    rfl
  simp [erase, hdir, removeFile_ofPlace ht hfits hfile]

/-- Where nothing stands there is nothing to erase. -/
theorem erase_of_none (ht : d.IsTree) (hfits : ∀ n ∈ q, Fits n) (hway : d.Passable q)
    (hnone : d.entry? q = none) : erase d (ofPlace q) = (.ok (), d) := by
  have hdir : d.isDir (ofPlace q) = false := by
    rw [isDir_ofPlace ht hfits hway, hnone]
    rfl
  simp [erase, hdir, removeFile_of_none ht hfits hway hnone]

/-- A directory goes with everything below it. -/
theorem erase_of_dir (ht : d.IsTree) (hfits : ∀ n ∈ q ++ [name], Fits n)
    (hdir : d.entry? (q ++ [name]) = some .dir) :
    ∃ d', erase d (ofPlace (q ++ [name])) = (.ok (), d') ∧
      ∀ r, d'.entry? r = if q ++ [name] <+: r then none else d.entry? r := by
  obtain ⟨d', hrun, hd'⟩ := removeTree_ofPlace ht hfits hdir
  have hisDir : d.isDir (ofPlace (q ++ [name])) = true := by
    rw [isDir_ofPlace ht hfits (ht.passable_of_some hdir fun _ => nofun), hdir]
    rfl
  exact ⟨d', by simp [erase, hisDir, hrun], hd'⟩

end KeyedSeries.DirectoryStore

import KeyedSeries.Proofs.Store.Files

/-!
# Changes below a directory

Whatever the store does with files below a directory, and whether or not it succeeds,
**nothing outside of the directory changes** (`KeyedSeries.Disk.Confined`). What a failure
leaves behind lies below the directory as well: directories that were made for a document
and its hidden file (`KeyedSeries.DirectoryStore.confined_save`). What is erased is gone with
all that was below it (`KeyedSeries.DirectoryStore.entry?_erase`). The directory itself need
not be there, only the one around it.
-/

namespace KeyedSeries

open Disk FilePath

namespace Disk

/-- Two disks differ only at a place and below it, and the second one is a tree without
links. -/
structure Confined (base : Place) (d d' : Disk) : Prop where
  /-- There are no links. -/
  isPlainTree : d'.IsPlainTree
  /-- Elsewhere nothing has changed. -/
  frame : ∀ r, ¬base <+: r → d'.entry? r = d.entry? r

namespace Confined

variable {d d' d'' : Disk} {base q : Place} {name : String}

theorem refl (ht : d.IsPlainTree) : Confined base d d := ⟨ht, fun _ _ => rfl⟩

theorem trans (h : Confined base d d') (h' : Confined base d' d'') : Confined base d d'' :=
  ⟨h'.isPlainTree, fun r hr => (h'.frame r hr).trans (h.frame r hr)⟩

/-- What is confined to a place is confined to any place above it. -/
theorem mono {above : Place} (hab : above <+: base) (h : Confined base d d') :
    Confined above d d' :=
  ⟨h.isPlainTree, fun r hr => h.frame r fun hbr => hr (hab.trans hbr)⟩

/-- The directory around the place stays. -/
theorem dir_around {up : Place} {unit : String} (h : Confined (up ++ [unit]) d d')
    (hup : d.entry? up = some .dir) : d'.entry? up = some .dir := by
  rw [h.frame up fun hpre => absurd hpre.length_le (by simp), hup]

/-- Directories that are made on the way to a place below are new only there. -/
theorem of_grown {up : Place} {unit : String} (ht : d.IsPlainTree) (hup : d.entry? up = some .dir)
    (hq : up ++ [unit] <+: q) (h : Grown (· <+: q) d d') : Confined (up ++ [unit]) d d' := by
  refine ⟨h.isPlainTree ht, fun r hr => ?_⟩
  rcases h.entry r with hsame | ⟨hrq, hnone, -⟩
  · exact hsame
  · -- Above the place there are directories already.
    rcases List.prefix_or_prefix_of_prefix hrq hq with hpre | hpre
    · rcases List.prefix_concat_iff.mp hpre with rfl | hpre
      · exact absurd (List.prefix_refl _) hr
      · rcases ht.vacant_of_dir hup r hpre with h | h
        · exact absurd hup (by rw [ht.none_of_prefix hpre h]; exact nofun)
        · rw [h] at hnone
          cases hnone
    · exact absurd hpre hr

end Confined

end Disk

namespace DirectoryStore

variable {d d' : Disk} {base : Place} {name : String} {file : FilePath}

/-- What every part of the work on a list keeps, the work keeps, up to the first failure. -/
theorem keeps_forAll {α : Type} {J : Disk → Prop} {f : Disk → α → Except Failure Unit × Disk}
    {l : List α} (hf : ∀ a ∈ l, ∀ d, J d → J (f d a).2) (h : J d) : J (forAll f d l).2 := by
  induction l generalizing d with
  | nil => exact h
  | cons a rest ih =>
    obtain ⟨ha, hrest⟩ := List.forall_mem_cons.mp hf
    have hfirst := ha d h
    rw [forAll]
    split
    · next d₁ hrun =>
      rw [hrun] at hfirst
      exact ih hrest hfirst
    · exact hfirst

/-- A path of a place below another one, with names such as entries can have. -/
def IsBelow (base : Place) (file : FilePath) : Prop :=
  ∃ q name, base <+: q ∧ (∀ n ∈ q ++ [name], isEntryName n = true) ∧ file = ofPlace (q ++ [name])

/-! ### Saving -/

/-- Where a file was put into a directory below a place, only what is below the place has
changed. -/
theorem confined_put_file (ht : d.IsPlainTree) {q : Place} (hb : base <+: q)
    (hdir : d.entry? q = some .dir) (hname : Fits name)
    (hplace : d.entry? (q ++ [name]) ≠ some .dir) (content : Bytes) :
    Confined base d (d.put (q ++ [name]) (.file content)) := by
  refine ⟨ht.put_file hdir hname hplace content, fun r hr => ?_⟩
  rw [entry?_put (by simp), if_neg]
  rintro rfl
  exact hr (hb.trans (List.prefix_append q [name]))

/-- So it is where a file was taken away. -/
theorem confined_drop_file (ht : d.IsPlainTree) {q : Place} (hb : base <+: q) {content : Bytes}
    (hfile : d.entry? (q ++ [name]) = some (.file content)) :
    Confined base d (d.drop (q ++ [name])) := by
  refine ⟨ht.drop_file hfile, fun r hr => ?_⟩
  rw [entry?_drop (by simp), if_neg]
  rintro rfl
  exact hr (hb.trans (List.prefix_append q [name]))

/-- The hidden file of a document is such a file. -/
theorem IsReady.confined {q : Place} {d₁ : Disk} (h : IsReady d q name d₁) (ht : d.IsPlainTree)
    (hb : base <+: q) (content : Bytes) :
    Confined base d₁ (d₁.put (q ++ [draftName name]) (.file content)) :=
  confined_put_file (h.grown.isPlainTree ht) hb h.dir h.fits h.free.noDir content

section Around

variable {up : Place} {unit : String}

/-- **To save a document** changes nothing outside of the directory that its file is
below, whatever comes of it. -/
theorem confined_save (ht : d.IsPlainTree) (hup : d.entry? up = some .dir)
    (hfile : IsBelow (up ++ [unit]) file) (doc : Document) :
    Confined (up ++ [unit]) d (save d file doc).2 := by
  obtain ⟨q, name, hb, hq, rfl⟩ := hfile
  have hsaves := saves_save ht hq doc
  generalize save d (ofPlace (q ++ [name])) doc = outcome at hsaves ⊢
  cases hsaves with
  | unwritten hgrown => exact .of_grown ht hup hb hgrown
  | hidden hready =>
    exact (Confined.of_grown ht hup hb hready.grown).trans (hready.confined ht hb _)
  | @inPlace d₁ hready hfits htarget =>
    have hwritten := (Confined.of_grown ht hup hb hready.grown).trans
      (hready.confined ht hb doc.bytes)
    have hthere : Disk.entry? (d₁.put (q ++ [draftName name]) (.file doc.bytes))
        (q ++ [draftName name]) = some (.file doc.bytes) := by rw [entry?_put (by simp), if_pos rfl]
    have hdropped := hwritten.trans (confined_drop_file hwritten.isPlainTree hb hthere)
    refine hdropped.trans (confined_put_file hdropped.isPlainTree hb ?_ (hfits name (by simp)) ?_ _)
    · rw [entry?_drop (by simp), if_neg (by simp), entry?_put (by simp), if_neg (by simp),
        hready.dir]
    · have hne : q ++ [name] ≠ q ++ [draftName name] := by simpa using (draftName_ne name).symm
      rw [entry?_drop (by simp), if_neg hne, entry?_put (by simp), if_neg hne]
      exact htarget.noDir

/-! ### Erasing -/

/-- What erasing leaves, whatever comes of it. -/
theorem snd_erase (d : Disk) (file : FilePath) : (erase d file).2 =
    if d.isDir file then (d.removeTree file).2
    else
      match d.removeFile file with
      | .ok d => d
      | .error _ => d := by
  -- What is answered does not matter to what is left.
  unfold erase
  cases d.isDir file with
  | true =>
    rcases d.removeTree file with ⟨e | _, d'⟩
    · cases e <;> rfl
    · rfl
  | false =>
    cases d.removeFile file with
    | error e => cases e <;> rfl
    | ok d' => rfl

/-- Where nothing stands, erasing leaves all as it is. -/
theorem snd_erase_of_none (ht : d.IsPlainTree) {q : Place} (hq : ∀ n ∈ q, isEntryName n = true)
    (hnone : d.entry? q = none) : (erase d (ofPlace q)).2 = d := by
  rw [snd_erase, isDir_of_none ht hq hnone, if_neg Bool.false_ne_true]
  split
  · next d₁ hremove =>
    -- Only what is found is removed.
    rw [removeFile] at hremove
    split at hremove
    · cases hremove
    · cases hremove
    · cases hremove
    · next hlocate =>
      rw [(spot_eq_found (locateName_eq_ok ht hq hlocate).2.2).2] at hnone
      cases hnone
  · rfl

/-- **To erase what stands at a place** takes it away with all that is below it, and nothing
else, whatever comes of it. -/
theorem entry?_erase (ht : d.IsPlainTree) {q : Place} (hq : ∀ n ∈ q ++ [name], isEntryName n = true)
    (r : Place) : Disk.entry? (erase d (ofPlace (q ++ [name]))).2 r =
      if q ++ [name] <+: r then none else d.entry? r := by
  cases hentry : d.entry? (q ++ [name]) with
  | none =>
    rw [snd_erase_of_none ht hq hentry]
    split
    · next hpre => exact ht.none_of_prefix hpre hentry
    · rfl
  | some e =>
    have hfits := ht.fits hentry
    cases e with
    | link t => exact absurd hentry (ht.noLinks _ _)
    | dir =>
      obtain ⟨d', hrun, hd'⟩ := erase_of_dir ht.toIsTree hfits hentry
      rw [hrun, hd']
    | file content =>
      rw [erase_of_file ht.toIsTree hfits hentry, entry?_drop (by simp)]
      by_cases hr : r = q ++ [name]
      · rw [if_pos hr, if_pos (hr ▸ List.prefix_refl _)]
      · rw [if_neg hr]
        split
        · next hpre =>
          -- Below a file there is nothing.
          rw [Option.eq_none_iff_forall_ne_some]
          intro e he
          rw [ht.dir_of_prefix hpre (Ne.symm hr) he] at hentry
          cases hentry
        · rfl

theorem isPlainTree_erase (ht : d.IsPlainTree) {q : Place}
    (hq : ∀ n ∈ q ++ [name], isEntryName n = true) :
    (erase d (ofPlace (q ++ [name]))).2.IsPlainTree := by
  refine ⟨ht.of_cleared (entry?_erase ht hq), fun r t hr => ?_⟩
  rw [entry?_erase ht hq] at hr
  split at hr
  · cases hr
  · exact ht.noLinks r t hr

theorem confined_erase (ht : d.IsPlainTree) {q : Place}
    (hq : ∀ n ∈ q ++ [name], isEntryName n = true) :
    Confined (q ++ [name]) d (erase d (ofPlace (q ++ [name]))).2 :=
  ⟨isPlainTree_erase ht hq, fun r hr => by rw [entry?_erase ht hq, if_neg hr]⟩

theorem confined_erase_below (ht : d.IsPlainTree) (hfile : IsBelow base file) :
    Confined base d (erase d file).2 := by
  obtain ⟨q, name, hb, hq, rfl⟩ := hfile
  exact (confined_erase ht hq).mono (hb.trans (List.prefix_append q [name]))

/-! ### Series -/

/-- To write a series changes nothing outside of the directory, whatever comes of it. -/
theorem confined_writeSeries (ht : d.IsPlainTree) (hup : d.entry? up = some .dir)
    (hfile : IsBelow (up ++ [unit]) file) (records : List Record) (tags : Tags) :
    Confined (up ++ [unit]) d (writeSeries d file records tags).2 := by
  rw [writeSeries]
  split
  · exact .refl ht
  · exact .refl ht
  · split
    · exact .refl ht
    · exact confined_save ht hup hfile _

/-- Nor does it to remove one. -/
theorem confined_removeOne (ht : d.IsPlainTree) (hfile : IsBelow base file)
    (filter : Option TagFilter) : Confined base d (removeOne d filter file).2 := by
  unfold removeOne
  split
  · exact .refl ht
  · split
    · exact confined_erase_below ht hfile
    · split
      · exact .refl ht
      · exact .refl ht
      · split
        · exact confined_erase_below ht hfile
        · exact .refl ht

/-- Nor does it to trim one. -/
theorem confined_trimOne (ht : d.IsPlainTree) (hup : d.entry? up = some .dir)
    (hfile : IsBelow (up ++ [unit]) file) (filter : Option TagFilter) (range : KeyRange) :
    Confined (up ++ [unit]) d (trimOne d filter range file).2 := by
  rw [trimOne]
  split
  · exact .refl ht
  · exact .refl ht
  · simp only
    split
    · exact confined_save ht hup hfile _
    · exact .refl ht

/-! ### Several files -/

/-- What each step keeps in its place, all of them do. -/
theorem confined_forAll {α : Type} {f : Disk → α → Except Failure Unit × Disk} {l : List α}
    (hf : ∀ a ∈ l, ∀ d : Disk, d.IsPlainTree → d.entry? up = some .dir →
      Confined (up ++ [unit]) d (f d a).2)
    (ht : d.IsPlainTree) (hup : d.entry? up = some .dir) :
    Confined (up ++ [unit]) d (forAll f d l).2 :=
  keeps_forAll (J := Confined (up ++ [unit]) d)
    (fun a ha d' hd' => hd'.trans (hf a ha d' hd'.isPlainTree (hd'.dir_around hup))) (.refl ht)

/-- To write to files below a directory changes nothing outside of it. -/
theorem confined_writeAll (ht : d.IsPlainTree) (hup : d.entry? up = some .dir)
    {files : List FilePath} (hfiles : ∀ file ∈ files, IsBelow (up ++ [unit]) file)
    (records : List (List Record)) (tagSets : List Tags) :
    Confined (up ++ [unit]) d (writeAll files records tagSets d).2 := by
  rw [writeAll]
  split
  · exact .refl ht
  · refine confined_forAll (fun column hcolumn d ht hup => ?_) ht hup
    exact confined_writeSeries ht hup (hfiles _ (List.of_mem_zip hcolumn).1) _ _

end Around

end DirectoryStore

end KeyedSeries

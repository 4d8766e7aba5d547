import KeyedSeries.Proofs.Store.Confined

/-!
# Trees of units

Below the root of a store there are units, and below these the directories on the way to a
file. A directory is made when a document is saved and stays when the file goes
(`KeyedSeries.DirectoryStore.entry?_save`), so the directories tell of all files that there
were. **In a tree of units every directory lies on a way that was allowed, and nothing that the
store does changes that** (`KeyedSeries.DirectoryStore.IsUnitTree`), whatever comes of it: a
document that is saved only makes the directories on its own way.
-/

namespace KeyedSeries.DirectoryStore

open Disk FilePath

variable {d : Disk} {q root : Place} {name unit : String} {file : FilePath}
  {way : String → List String → Prop}

/-! ### What is new -/

/-- Where directories were made, it is one of them or stood there before. -/
theorem entry?_of_grown {P : Place → Prop} {d' : Disk} (h : Grown P d d') {r : Place} {e : Entry}
    (hr : d'.entry? r = some e) : d.entry? r = some e ∨ P r ∧ e = .dir := by
  rcases h.entry r with hsame | ⟨hP, -, hdir⟩
  · exact .inl (hsame ▸ hr)
  · exact .inr ⟨hP, Option.some.inj (hr.symm.trans hdir)⟩

/-- Where a file was put into a directory, it is that file or stood there before. -/
theorem entry?_of_put_file {n : String} {content : Bytes} {r : Place} {e : Entry}
    (h : Disk.entry? (d.put (q ++ [n]) (.file content)) r = some e) :
    d.entry? r = some e ∨ ∃ n content, r = q ++ [n] ∧ e = .file content := by
  rw [entry?_put (by simp)] at h
  split at h
  · next heq =>
    cases h
    exact .inr ⟨n, content, heq, rfl⟩
  · exact .inl h

/-- **What is new after a document was saved**, whatever came of it: directories on the way to it,
and files in its directory. -/
theorem entry?_save (ht : d.IsPlainTree) (hq : ∀ n ∈ q ++ [name], isEntryName n = true)
    {doc : Document} {r : Place} {e : Entry}
    (h : Disk.entry? (save d (ofPlace (q ++ [name])) doc).2 r = some e) :
    d.entry? r = some e ∨ r <+: q ∧ e = .dir ∨ ∃ n content, r = q ++ [n] ∧ e = .file content := by
  have hsaves := saves_save ht hq doc
  generalize save d (ofPlace (q ++ [name])) doc = outcome at hsaves h
  cases hsaves with
  | unwritten hgrown => exact (entry?_of_grown hgrown h).imp_right .inl
  | hidden hready =>
    rcases entry?_of_put_file h with hr | hnew
    · exact (entry?_of_grown hready.grown hr).imp_right .inl
    · exact .inr (.inr hnew)
  | inPlace hready =>
    rw [entry?_moved (by simp) (by simp)] at h
    split at h
    · next heq =>
      cases h
      exact .inr (.inr ⟨name, doc.bytes, heq, rfl⟩)
    · split at h
      · cases h
      · exact (entry?_of_grown hready.grown h).imp_right .inl

/-! ### Trees of units -/

/-- **A tree of units**: the root is a directory, in it there are the directories of units, and
below a unit every directory lies on a way that is allowed. -/
structure IsUnitTree (root : Place) (way : String → List String → Prop) (d : Disk) : Prop where
  /-- There are no links. -/
  isPlainTree : d.IsPlainTree
  /-- The root is a directory. -/
  rootDir : d.entry? root = some .dir
  /-- No file is in the place of a unit. -/
  noFile : ∀ unit content, d.entry? (root ++ [unit]) ≠ some (.file content)
  /-- The directories are on ways. -/
  onWay : ∀ {unit names}, d.entry? (root ++ unit :: names) = some .dir → way unit names

/-- A file below a unit, with names such as entries can have, and with directories around it that
are on ways. -/
def IsOnWay (root : Place) (way : String → List String → Prop) (unit : String) (file : FilePath) :
    Prop :=
  ∃ q name, root ++ [unit] <+: q ∧ (∀ n ∈ q ++ [name], isEntryName n = true) ∧
    (∀ names, root ++ unit :: names <+: q → way unit names) ∧ file = ofPlace (q ++ [name])

namespace IsUnitTree

/-- A tree stays one if what is new are directories on ways, and files below units. -/
theorem of_entry? (h : IsUnitTree root way d) {d' : Disk} (hd' : Confined (root ++ [unit]) d d')
    (hnew : ∀ names e, d'.entry? (root ++ unit :: names) = some e →
      d.entry? (root ++ unit :: names) = some e ∨ (e = .dir ∧ way unit names) ∨
        names ≠ [] ∧ ∃ content, e = .file content) : IsUnitTree root way d' := by
  -- Outside of the unit all is as it was.
  have hother : ∀ {other names}, other ≠ unit →
      d'.entry? (root ++ other :: names) = d.entry? (root ++ other :: names) := by
    intro other names hne
    refine hd'.frame _ fun hpre => hne ?_
    have hunits : [unit] <+: other :: names := (List.prefix_append_right_inj root).mp hpre
    simpa [eq_comm] using hunits
  refine ⟨hd'.isPlainTree, hd'.dir_around h.rootDir, fun other content hfile => ?_,
    fun {other names} hdir => ?_⟩
  · by_cases hunit : other = unit
    · subst hunit
      rcases hnew [] _ hfile with hfile | ⟨hdir, -⟩ | ⟨hne, -⟩
      · exact h.noFile _ _ hfile
      · cases hdir
      · exact hne rfl
    · exact h.noFile other content (hother hunit ▸ hfile)
  · by_cases hunit : other = unit
    · subst hunit
      rcases hnew names _ hdir with hdir | ⟨-, hway⟩ | ⟨-, content, hfile⟩
      · exact h.onWay hdir
      · exact hway
      · cases hfile
    · exact h.onWay (hother hunit ▸ hdir)

/-- What takes entries away leaves a tree of units. -/
theorem of_removed (h : IsUnitTree root way d) {d' : Disk} (hd' : Confined (root ++ [unit]) d d')
    (hgone : ∀ r e, d'.entry? r = some e → d.entry? r = some e) : IsUnitTree root way d' :=
  h.of_entry? hd' fun _ _ hentry => .inl (hgone _ _ hentry)

/-- **To save a document** leaves a tree of units, if the directories around its file are on
ways. -/
theorem save (h : IsUnitTree root way d) (hb : root ++ [unit] <+: q)
    (hq : ∀ n ∈ q ++ [name], isEntryName n = true)
    (hway : ∀ names, root ++ unit :: names <+: q → way unit names) (doc : Document) :
    IsUnitTree root way (save d (ofPlace (q ++ [name])) doc).2 := by
  refine h.of_entry? (confined_save h.isPlainTree h.rootDir ⟨q, name, hb, hq, rfl⟩ doc)
    fun names e hentry => ?_
  rcases entry?_save h.isPlainTree hq hentry with hsame | ⟨hpre, rfl⟩ | ⟨n, content, heq, rfl⟩
  · exact .inl hsame
  · exact .inr (.inl ⟨rfl, hway names hpre⟩)
  · refine .inr (.inr ⟨?_, content, rfl⟩)
    -- The file is below the unit, and not in its place.
    rintro rfl
    have hlength := hb.length_le
    rw [heq] at hlength
    simp at hlength

theorem erase (h : IsUnitTree root way d) (hb : root ++ [unit] <+: q ++ [name])
    (hq : ∀ n ∈ q ++ [name], isEntryName n = true) :
    IsUnitTree root way (erase d (ofPlace (q ++ [name]))).2 := by
  refine h.of_removed ((confined_erase h.isPlainTree hq).mono hb) fun r e hr => ?_
  rw [entry?_erase h.isPlainTree hq] at hr
  split at hr
  · cases hr
  · exact hr

/-! ### Series -/

/-- To remove a series leaves a tree of units. -/
theorem removeOne (h : IsUnitTree root way d) (hfile : IsBelow (root ++ [unit]) file)
    (filter : Option TagFilter) : IsUnitTree root way (removeOne d filter file).2 := by
  obtain ⟨q, name, hb, hq, rfl⟩ := hfile
  have herase := h.erase (hb.trans (List.prefix_append q [name])) hq
  unfold DirectoryStore.removeOne
  split
  · exact h
  · split
    · exact herase
    · split
      · exact h
      · exact h
      · split
        · exact herase
        · exact h

/-- So it does to trim one: the directories around its file are there. -/
theorem trimOne (h : IsUnitTree root way d) (hfile : IsBelow (root ++ [unit]) file)
    (filter : Option TagFilter) (range : KeyRange) :
    IsUnitTree root way (trimOne d filter range file).2 := by
  obtain ⟨q, name, hb, hq, rfl⟩ := hfile
  rw [DirectoryStore.trimOne]
  split
  · exact h
  · exact h
  · next doc hload =>
    simp only
    split
    · refine h.save hb hq (fun names hpre => h.onWay ?_) _
      obtain ⟨hdoc, -⟩ := load_eq_ok h.isPlainTree hq hload
      obtain ⟨content, hcontent, -⟩ := Option.bind_eq_some_iff.mp hdoc
      have hdir := h.isPlainTree.closed (fileAt?_eq_some_iff.mp hcontent)
      exact ((h.isPlainTree.vacant_of_dir hdir _ hpre).resolve_left fun hnone => by
        rw [h.isPlainTree.none_of_prefix hpre hnone] at hdir
        cases hdir)
    · exact h

/-- So it does to write one, if the directories around its file are on ways. -/
theorem writeSeries (h : IsUnitTree root way d) (hfile : IsOnWay root way unit file)
    (records : List Record) (tags : Tags) :
    IsUnitTree root way (writeSeries d file records tags).2 := by
  obtain ⟨q, name, hb, hq, hway, rfl⟩ := hfile
  rw [DirectoryStore.writeSeries]
  split
  · exact h
  · exact h
  · split
    · exact h
    · exact h.save hb hq hway _

/-- **To write several series** leaves a tree of units, if the directories around their files are
on ways. -/
theorem writeAll (h : IsUnitTree root way d) {files : List FilePath}
    (hfiles : ∀ file ∈ files, IsOnWay root way unit file) (records : List (List Record))
    (tagSets : List Tags) : IsUnitTree root way (writeAll files records tagSets d).2 := by
  rw [DirectoryStore.writeAll]
  split
  · exact h
  · exact keeps_forAll (J := IsUnitTree root way)
      (fun column hcolumn d hd => hd.writeSeries (hfiles _ (List.of_mem_zip hcolumn).1) _ _) h

end IsUnitTree

end KeyedSeries.DirectoryStore

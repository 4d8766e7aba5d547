import KeyedSeries.Proofs.Disk.Tree

/-!
# Changing a tree

What a change of a tree comes to is said entry by entry. Directories are made on
the whole way to a place (`KeyedSeries.Disk.makeDirs_ofPlace`), a file is put at a
place or taken away, and a directory goes with everything below it
(`KeyedSeries.Disk.removeTree_ofPlace`); **the disk stays a tree**.
-/

namespace KeyedSeries.Disk

open FilePath

variable {d : Disk} {q : Place}

/-! ### Trees stay trees -/

/-- An entry may be put into a directory, unless it takes the place of a directory
without being one. -/
theorem IsTree.put (h : d.IsTree) {name : String} {e : Entry} (hdir : d.entry? q = some .dir)
    (hname : Fits name) (he : d.entry? (q ++ [name]) = some .dir → e = .dir) :
    (d.put (q ++ [name]) e).IsTree where
  fits := by
    intro r e' hr n hn
    rw [entry?_put (by simp)] at hr
    split at hr
    · next heq =>
      rw [heq, List.mem_append, List.mem_singleton] at hn
      rcases hn with hn | rfl
      · exact h.fits hdir n hn
      · exact hname
    · exact h.fits hr n hn
  closed := by
    intro r n e' hr
    rw [entry?_put (by simp)] at hr ⊢
    split at hr
    · next heq =>
      obtain ⟨rfl, -⟩ := List.append_inj' heq rfl
      rw [if_neg (by simp), hdir]
    · have hr' := h.closed hr
      split
      · next heq =>
        rw [heq] at hr'
        rw [he hr']
      · exact hr'

/-- A file may be taken away. -/
theorem IsTree.drop (h : d.IsTree) {content : Bytes} (hfile : d.entry? q = some (.file content)) :
    (d.drop q).IsTree := by
  have hq : q ≠ [] := by
    rintro rfl
    cases hfile
  constructor
  · intro r e hr
    rw [entry?_drop hq] at hr
    split at hr
    · cases hr
    · exact h.fits hr
  · intro r n e hr
    rw [entry?_drop hq] at hr ⊢
    split at hr
    · cases hr
    · have hr' := h.closed hr
      rw [if_neg, hr']
      rintro rfl
      rw [hfile] at hr'
      cases hr'

/-- What lies below a place may be taken away. -/
theorem IsTree.dropBelow (h : d.IsTree) (q : Place) : (d.dropBelow q).IsTree := by
  constructor
  · intro r e hr
    rw [entry?_dropBelow] at hr
    split at hr
    · cases hr
    · exact h.fits hr
  · intro r n e hr
    rw [entry?_dropBelow] at hr ⊢
    split at hr
    · cases hr
    · next hbelow =>
      rw [if_neg, h.closed hr]
      rintro ⟨hqr, -⟩
      refine hbelow ⟨hqr.trans (List.prefix_append r [n]), ?_⟩
      rintro rfl
      exact absurd hqr.length_le (by simp)

/-- A tree from which everything at a place and below it is gone. -/
theorem IsTree.of_cleared (h : d.IsTree) {d' : Disk}
    (hd' : ∀ r, d'.entry? r = if q <+: r then none else d.entry? r) : d'.IsTree := by
  constructor
  · intro r e hr
    rw [hd'] at hr
    split at hr
    · cases hr
    · exact h.fits hr
  · intro r n e hr
    rw [hd'] at hr ⊢
    split at hr
    · cases hr
    · next hpre =>
      rw [if_neg fun hqr => hpre (hqr.trans (List.prefix_append r [n])), h.closed hr]

/-! ### Making directories -/

/-- No file or link is on the way to a place, nor at the place itself. -/
def Vacant (d : Disk) (q : Place) : Prop :=
  ∀ r, r <+: q → d.entry? r = none ∨ d.entry? r = some .dir

theorem Vacant.passable (h : d.Vacant q) : d.Passable q := by
  refine ⟨fun hr _ => ?_, fun hr => ?_⟩ <;> rcases h _ hr with h | h <;> rw [h] <;> exact nofun

/-- To a directory there is nothing in the way. -/
theorem IsTree.vacant_of_dir (h : d.IsTree) (hdir : d.entry? q = some .dir) : d.Vacant q := by
  intro r hr
  by_cases hne : r = q
  · exact .inr (hne ▸ hdir)
  · exact .inr (h.dir_of_prefix hr hne hdir)

theorem ensureDir_ofPlace (ht : d.IsTree) (hfits : ∀ n ∈ q, Fits n) (hway : d.Vacant q) :
    d.ensureDir (ofPlace q) =
      if d.entry? q = some .dir then .ok d
      else if d.entry? q.dropLast = some .dir then .ok (d.put q .dir)
      else .error .notFound := by
  rw [ensureDir, makeDir, locateName_ofPlace ht hfits hway.passable,
    isDir_ofPlace ht hfits hway.passable, spot]
  rcases hway q (List.prefix_refl q) with h | h
  · by_cases hup : d.entry? q.dropLast = some .dir <;> simp [h, hup]
  · simp [h]

/-- To a directory there are directories on the way already. -/
theorem IsTree.entry?_of_dir (h : d.IsTree) (hdir : d.entry? q = some .dir) (r : Place) :
    d.entry? r = if r <+: q then some .dir else d.entry? r := by
  split
  · next hr =>
    by_cases hne : r = q
    · rw [hne, hdir]
    · exact h.dir_of_prefix hr hne hdir
  · rfl

/-- The last directory is made in a disk that has all others on the way. -/
theorem entry?_put_dir {d' : Disk}
    (hd' : ∀ r, d'.entry? r = if r <+: q then some .dir else d.entry? r)
    (name : String) (r : Place) : Disk.entry? (d'.put (q ++ [name]) .dir) r =
      if r <+: q ++ [name] then some .dir else d.entry? r := by
  rw [entry?_put (by simp), hd']
  by_cases hr : r = q ++ [name]
  · rw [if_pos hr, if_pos (hr ▸ List.prefix_refl _)]
  · by_cases hrq : r <+: q
    · rw [if_neg hr, if_pos hrq, if_pos (hrq.trans (List.prefix_append q [name]))]
    · rw [if_neg hr, if_neg hrq, if_neg]
      exact fun h => (List.prefix_concat_iff.mp h).elim hr hrq

/-- **Making the directories on the way to a place** changes nothing else. -/
theorem makeDirs_ofPlace (ht : d.IsTree) (hfits : ∀ n ∈ q, Fits n) (hway : d.Vacant q) :
    ∃ d', d.makeDirs (ofPlace q) = (.ok (), d') ∧ d'.IsTree ∧
      ∀ r, d'.entry? r = if r <+: q then some .dir else d.entry? r := by
  rw [makeDirs, if_neg (text_ofPlace_ne q)]
  induction q using List.reverseRecOn with
  | nil =>
    refine ⟨d, ?_, ht, ht.entry?_of_dir (entry?_nil d)⟩
    rw [ensureDirs, ensureDir_ofPlace ht hfits hway, if_pos (entry?_nil d)]
  | append_singleton q name ih =>
    have hq : ∀ n ∈ q, Fits n := fun n hn => hfits n (List.mem_append_left _ hn)
    have hname : Fits name := hfits name (by simp)
    have hway' : d.Vacant q := fun r hr => hway r (hr.trans (List.prefix_append q [name]))
    rw [around_ofPlace fun n hn => (hfits n hn).isEntryName, ensureDirs,
      ensureDir_ofPlace ht hfits hway]
    by_cases hthere : d.entry? (q ++ [name]) = some .dir
    · rw [if_pos hthere]
      exact ⟨d, rfl, ht, ht.entry?_of_dir hthere⟩
    · have hnone : d.entry? (q ++ [name]) = none :=
        (hway _ (List.prefix_refl _)).resolve_right hthere
      rw [if_neg hthere, List.dropLast_concat]
      by_cases hup : d.entry? q = some .dir
      · rw [if_pos hup]
        exact ⟨_, rfl, ht.put hup hname fun _ => rfl, entry?_put_dir (ht.entry?_of_dir hup) name⟩
      · -- The directories around it come first, and then the directory is tried once more.
        rw [if_neg hup]
        obtain ⟨d₁, hrun, ht₁, hd₁⟩ := ih hq hway'
        have hup₁ : d₁.entry? q = some .dir := by rw [hd₁, if_pos (List.prefix_refl q)]
        have hnone₁ : d₁.entry? (q ++ [name]) = none := by
          rw [hd₁, if_neg, hnone]
          exact fun h => absurd h.length_le (by simp)
        have hway₁ : d₁.Vacant (q ++ [name]) := by
          intro r hr
          rw [hd₁]
          split
          · exact Or.inr rfl
          · exact hway r hr
        simp only [hrun, ensureDir_ofPlace ht₁ hfits hway₁]
        rw [if_neg (by rw [hnone₁]; exact nofun), List.dropLast_concat, if_pos hup₁]
        exact ⟨_, rfl, ht₁.put hup₁ hname fun _ => rfl, entry?_put_dir hd₁ name⟩

/-- A directory that is there is not made. -/
theorem makeDirs_of_dir (ht : d.IsTree) (hdir : d.entry? q = some .dir) :
    d.makeDirs (ofPlace q) = (.ok (), d) := by
  rw [makeDirs, if_neg (text_ofPlace_ne q), ensureDirs,
    ensureDir_ofPlace ht (ht.fits hdir) (ht.vacant_of_dir hdir), if_pos hdir]

/-! ### Writing and renaming -/

/-- Nothing stands at a place, or a file does. -/
structure TakesFile (d : Disk) (q : Place) : Prop where
  /-- There is no directory. -/
  noDir : d.entry? q ≠ some .dir
  /-- There is no link. -/
  noLink : ∀ {t}, d.entry? q ≠ some (.link t)

theorem takesFile_of_none (h : d.entry? q = none) : d.TakesFile q := by
  constructor <;> simp [h]

theorem TakesFile.congr {d' : Disk} (h : d.TakesFile q) (heq : d'.entry? q = d.entry? q) :
    d'.TakesFile q :=
  ⟨by rw [heq]; exact h.noDir, by rw [heq]; exact h.noLink⟩

/-- A file is written at a place in a directory, a new one or in the place of an old
one. -/
theorem write_ofPlace (ht : d.IsTree) {name : String} (hfits : ∀ n ∈ q ++ [name], Fits n)
    (hdir : d.entry? q = some .dir) (hplace : d.TakesFile (q ++ [name])) (content : Bytes) :
    d.write (ofPlace (q ++ [name])) content = .ok (d.put (q ++ [name]) (.file content)) := by
  have hway : d.Passable (q ++ [name]) := ht.passable_child hdir fun _ => hplace.noLink
  rw [write, locate_ofPlace ht hfits hway, spot, List.dropLast_concat, if_pos hdir]
  cases hentry : d.entry? (q ++ [name]) with
  | none => rfl
  | some e =>
    cases e with
    | dir => exact absurd hentry hplace.noDir
    | file content => rfl
    | link t => exact absurd hentry hplace.noLink

/-- What stands where after something was put at a place and taken to another one. -/
theorem entry?_moved {p : Place} (hp : p ≠ []) (hq : q ≠ []) (e e' : Entry) (r : Place) :
    Disk.entry? (((d.put p e).drop p).put q e') r =
      if r = q then some e' else if r = p then none else d.entry? r := by
  rw [entry?_put hq, entry?_drop hp, entry?_put hp]
  by_cases hr : r = p
  · rw [if_pos hr, if_pos hr]
  · rw [if_neg hr, if_neg hr, if_neg hr]

/-- A file goes to another place in a directory, and takes the place of a file that
stands there. -/
theorem rename_ofPlace (ht : d.IsTree) (hq : ∀ n ∈ q, Fits n) {content : Bytes}
    (hfile : d.entry? q = some (.file content)) {r : Place} {name : String}
    (hr : ∀ n ∈ r ++ [name], Fits n) (hdir : d.entry? r = some .dir)
    (hplace : d.TakesFile (r ++ [name])) :
    d.rename (ofPlace q) (ofPlace (r ++ [name])) =
      .ok ((d.drop q).put (r ++ [name]) (.file content)) := by
  have hname : Fits name := hr name (by simp)
  have hway : d.Passable (r ++ [name]) := ht.passable_child hdir fun _ => hplace.noLink
  have hslash := endsInSlash_ofPlace (fun n hn => (hr n hn).isEntryName) (by simp)
  rw [rename, locateName_ofPlace ht hq (ht.passable_of_some hfile (by simp)), spot_of_some hfile,
    locateName_ofPlace ht hr hway, spot, List.dropLast_concat, hdir]
  cases hentry : d.entry? (r ++ [name]) with
  | none => simp [hslash]
  | some e =>
    have he : e ≠ .dir := fun he => hplace.noDir (he ▸ hentry)
    simp [hslash, lastStep?_ofPlace hr, hname.isName, he]

/-- A file is removed by the path of its place. -/
theorem removeFile_ofPlace (ht : d.IsTree) (hfits : ∀ n ∈ q, Fits n) {content : Bytes}
    (hfile : d.entry? q = some (.file content)) : d.removeFile (ofPlace q) = .ok (d.drop q) := by
  have hq : q ≠ [] := by
    rintro rfl
    cases hfile
  rw [removeFile, locateName_ofPlace ht hfits (ht.passable_of_some hfile fun _ => nofun),
    spot_of_some hfile]
  simp [endsInSlash_ofPlace (fun n hn => (hfits n hn).isEntryName) hq]

/-- Where nothing stands nothing is removed. -/
theorem removeFile_of_none (ht : d.IsTree) (hfits : ∀ n ∈ q, Fits n) (hway : d.Passable q)
    (hnone : d.entry? q = none) : d.removeFile (ofPlace q) = .error .notFound := by
  rw [removeFile, locateName_ofPlace ht hfits hway, spot, hnone]
  by_cases hup : d.entry? q.dropLast = some .dir <;> simp [hup]

/-- **A directory goes with everything below it**, and nothing else does. -/
theorem removeTree_ofPlace (ht : d.IsTree) {name : String} (hfits : ∀ n ∈ q ++ [name], Fits n)
    (hdir : d.entry? (q ++ [name]) = some .dir) :
    ∃ d', d.removeTree (ofPlace (q ++ [name])) = (.ok (), d') ∧
      ∀ r, d'.entry? r = if q ++ [name] <+: r then none else d.entry? r := by
  have hname : Fits name := hfits name (by simp)
  have hcleared : Disk.entry? (d.dropBelow (q ++ [name])) (q ++ [name]) = some .dir := by
    rw [entry?_dropBelow, if_neg fun h => h.2 rfl, hdir]
  have ht' : (d.dropBelow (q ++ [name])).IsTree := ht.dropBelow (q ++ [name])
  have hempty : (d.dropBelow (q ++ [name])).below (q ++ [name]) = [] := by
    rw [List.eq_nil_iff_forall_not_mem]
    rintro ⟨names, e⟩ hmem
    obtain ⟨hne, he⟩ := mem_below_iff.mp hmem
    rw [entry?_dropBelow, if_pos ⟨List.prefix_append _ _, by simpa using hne⟩] at he
    cases he
  have hremove : (d.dropBelow (q ++ [name])).removeDir (ofPlace (q ++ [name])) =
      .ok ((d.dropBelow (q ++ [name])).drop (q ++ [name])) := by
    rw [removeDir, locateName_ofPlace ht' hfits (ht'.passable_of_some hcleared fun _ => nofun),
      spot_of_some hcleared]
    simp only [lastStep?_ofPlace hfits, List.getLast?_append, List.getLast?_singleton, hempty]
    simp [hname.ne_here, hname.ne_up]
  rw [removeTree, locate_ofPlace ht hfits (ht.passable_of_some hdir fun _ => nofun),
    spot_of_some hdir]
  simp only [hremove]
  refine ⟨_, rfl, fun r => ?_⟩
  rw [entry?_drop (by simp), entry?_dropBelow]
  by_cases hr : r = q ++ [name]
  · rw [if_pos hr, if_pos (hr ▸ List.prefix_refl _)]
  · simp [hr]

end KeyedSeries.Disk

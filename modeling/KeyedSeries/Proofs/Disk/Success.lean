import KeyedSeries.Proofs.Disk.Change

/-!
# What a success tells

A path whose names are such as entries can have may still lead nowhere: a name can
be too long, or a file can be in the way. On a tree without links **a change that
succeeds tells that nothing was in its way** (`KeyedSeries.Disk.locate_eq_ok`,
`KeyedSeries.Disk.makeDirs_eq_ok`, `KeyedSeries.Disk.write_eq_ok`), and then it is
known what it did.
-/

namespace KeyedSeries.Disk

open FilePath

variable {d d' : Disk} {q : Place} {name : String}

/-! ### Trees without links -/

/-- No link stands anywhere. -/
def NoLinks (d : Disk) : Prop := ∀ q t, d.entry? q ≠ some (.link t)

/-- Directories that are made are no links. -/
theorem NoLinks.of_dirs (h : d.NoLinks)
    (hd' : ∀ r, d'.entry? r = if r <+: q then some .dir else d.entry? r) : d'.NoLinks := by
  intro r t hr
  rw [hd'] at hr
  split at hr
  · cases hr
  · exact h r t hr

/-- A file that is put somewhere is no link. -/
theorem NoLinks.put_file (h : d.NoLinks) (hq : q ≠ []) (content : Bytes) :
    (d.put q (.file content)).NoLinks := by
  intro r t hr
  rw [entry?_put hq] at hr
  split at hr
  · cases hr
  · exact h r t hr

/-- What is taken away leaves no link behind. -/
theorem NoLinks.drop (h : d.NoLinks) (hq : q ≠ []) : (d.drop q).NoLinks := by
  intro r t hr
  rw [entry?_drop hq] at hr
  split at hr
  · cases hr
  · exact h r t hr

/-- A tree without links. -/
structure IsPlainTree (d : Disk) : Prop extends IsTree d where
  /-- There are no links. -/
  noLinks : d.NoLinks

/-- A file may be put into a directory, unless another directory is in its place. -/
theorem IsPlainTree.put_file (h : d.IsPlainTree) (hdir : d.entry? q = some .dir)
    (hname : Fits name) (hplace : d.entry? (q ++ [name]) ≠ some .dir) (content : Bytes) :
    (d.put (q ++ [name]) (.file content)).IsPlainTree :=
  ⟨h.put hdir hname fun hthere => absurd hthere hplace, h.noLinks.put_file (by simp) content⟩

/-- A file may be taken away. -/
theorem IsPlainTree.drop_file (h : d.IsPlainTree) {content : Bytes}
    (hfile : d.entry? q = some (.file content)) : (d.drop q).IsPlainTree := by
  refine ⟨h.drop hfile, h.noLinks.drop ?_⟩
  rintro rfl
  cases hfile

/-- An entry that a tree without links can have at a place. -/
structure IsPlainEntry (d : Disk) (q : Place) (e : Entry) : Prop where
  /-- The names that lead to it are such as entries can have. -/
  fits : ∀ n ∈ q, Fits n
  /-- Around it there is a directory. -/
  closed : d.entry? q.dropLast = some .dir
  /-- It is no link. -/
  noLink : ∀ t, e ≠ .link t

/-- A disk is a tree without links if all its entries are such as it can have. -/
theorem isPlainTree_iff :
    d.IsPlainTree ↔ ∀ x ∈ d.entries.toList, x.1 ≠ [] → d.IsPlainEntry x.1 x.2 := by
  have hmem : ∀ {q e}, q ≠ [] → (d.entry? q = some e ↔ (q, e) ∈ d.entries.toList) := fun hq => by
    rw [entry?_of_ne_nil d hq, OrderedMap.mem_toList_iff]
  constructor
  · rintro h ⟨q, e⟩ hx hq
    have hentry := (hmem hq).mpr hx
    refine ⟨h.fits hentry, ?_, fun t heq => h.noLinks q t (heq ▸ hentry)⟩
    rw [← List.dropLast_append_getLast hq] at hentry
    exact h.closed hentry
  · intro h
    have hplain : ∀ {q e}, q ≠ [] → d.entry? q = some e → d.IsPlainEntry q e :=
      fun hq he => h _ ((hmem hq).mp he) hq
    refine ⟨⟨fun {q e} he n hn => ?_, fun {q n e} he => ?_⟩, fun q t he => ?_⟩
    · exact (hplain (List.ne_nil_of_mem hn) he).fits n hn
    · have hdir := (hplain (by simp) he).closed
      rwa [List.dropLast_concat] at hdir
    · rcases eq_or_ne q [] with rfl | hq
      · cases he
      · exact (hplain hq he).noLink t rfl

instance (d : Disk) (q : Place) (e : Entry) : Decidable (d.IsPlainEntry q e) :=
  have : Decidable (∀ t, e ≠ .link t) :=
    match e with
    | .link t => .isFalse fun h => h t rfl
    | .file _ | .dir => .isTrue fun _ h => Entry.noConfusion h
  decidable_of_iff ((∀ n ∈ q, Fits n) ∧ d.entry? q.dropLast = some .dir ∧ ∀ t, e ≠ .link t)
    ⟨fun ⟨h, h', h''⟩ => ⟨h, h', h''⟩, fun h => ⟨h.fits, h.closed, h.noLink⟩⟩

instance (d : Disk) : Decidable d.IsPlainTree := decidable_of_iff' _ isPlainTree_iff

/-! ### Walks -/

/-- A walk that succeeds meets no name that is too long, and nothing is in its
way. -/
theorem descend_eq_ok (ht : d.IsPlainTree) {follow : Bool} {here names : List String}
    (hhere : d.entry? here = some .dir) (hnames : ∀ n ∈ names, isEntryName n = true) {stop : Stop}
    (h : d.descend follow here names = .ok stop) :
    (∀ n ∈ names, n.utf8ByteSize ≤ nameLimit) ∧ d.Passable (here ++ names) := by
  induction names generalizing here with
  | nil => exact ⟨by simp, by simpa using ht.passable_of_some hhere (by simp)⟩
  | cons n rest ih =>
    obtain ⟨hn, hrest⟩ := List.forall_mem_cons.mp hnames
    obtain ⟨hempty, -, hname⟩ := isEntryName_iff.mp hn
    obtain ⟨-, hnhere, hup⟩ := isName_iff.mp hname
    have hassoc : here ++ n :: rest = here ++ [n] ++ rest := by simp
    have hlast : IsEntryStep n → rest = [] → (∀ m ∈ n :: rest, m.utf8ByteSize ≤ nameLimit) ∧
        d.Passable (here ++ n :: rest) := by
      rintro hstep rfl
      exact ⟨by simpa using hstep.short, ht.passable_child hhere fun _ => ht.noLinks _ _⟩
    rcases descend_cons_eq_ok h with ⟨there, hgoes, hbehind⟩ | hends
    · cases hgoes with
      | stay hskip => exact absurd hskip (by simp [hempty, hnhere])
      | up hisUp => exact absurd hisUp hup
      | down hstep hdir =>
        obtain ⟨hshorts, hway⟩ := ih hdir hrest hbehind
        rw [hassoc]
        exact ⟨List.forall_mem_cons.mpr ⟨hstep.short, hshorts⟩, hway⟩
    · cases hends with
      | vacant hstep _ hall =>
        -- Behind it there is no other name.
        exact hlast hstep (List.eq_nil_iff_forall_not_mem.mpr fun m hm =>
          (isEntryName_iff.mp (hrest m hm)).1 (hall m hm))
      | file hstep _ hnil => exact hlast hstep hnil
      | link _ hlink => exact absurd hlink (ht.noLinks _ _)
      | detour _ hlink => exact absurd hlink (ht.noLinks _ _)

/-- **A path that leads somewhere leads to its place**: its names are such as entries
can have, and nothing is in the way. -/
theorem locate_eq_ok (ht : d.IsPlainTree) (hq : ∀ n ∈ q, isEntryName n = true)
    {follow : Bool} {s : Spot} (h : d.locate follow (ofPlace q) = .ok s) :
    (∀ n ∈ q, Fits n) ∧ d.Passable q ∧ d.spot q = .ok s := by
  have hfits : (∀ n ∈ q, Fits n) ∧ d.Passable q := by
    obtain ⟨-, hzero, hwalk⟩ := walk_of_locate h
    have hzero := noZero_ofPlace.mp (by simpa using hzero)
    obtain ⟨stop, hdescend⟩ :
        ∃ stop, d.descend follow [] (stepsOf (ofPlace q).text) = .ok stop := by
      rcases walk_succ_eq_ok_iff.mp hwalk with hdescend | ⟨_, _, _, hdescend, -⟩
      · exact ⟨_, hdescend⟩
      · exact ⟨_, hdescend⟩
    rw [stepsOf_ofPlace hq, descend, if_pos (Or.inl rfl)] at hdescend
    by_cases hnil : q = []
    · subst hnil
      exact ⟨by simp, ht.passable_of_some (entry?_nil d) (by simp)⟩
    · rw [if_neg hnil] at hdescend
      obtain ⟨hshort, hway⟩ := descend_eq_ok ht (entry?_nil d) hq hdescend
      exact ⟨fun n hn => ⟨⟨hq n hn, hzero n hn⟩, hshort n hn⟩, hway⟩
  refine ⟨hfits.1, hfits.2, ?_⟩
  rw [← locate_ofPlace ht.toIsTree hfits.1 hfits.2 follow, h]

theorem locateName_eq_ok (ht : d.IsPlainTree) (hq : ∀ n ∈ q, isEntryName n = true)
    {s : Spot} (h : d.locateName (ofPlace q) = .ok s) :
    (∀ n ∈ q, Fits n) ∧ d.Passable q ∧ d.spot q = .ok s := by
  rw [locateName, withoutSlashes_ofPlace hq] at h
  exact locate_eq_ok ht hq h

/-- An entry that is found stands at the place. -/
theorem spot_eq_found {place : Place} {e : Entry} (h : d.spot q = .ok (.found place e)) :
    place = q ∧ d.entry? q = some e := by
  rw [spot] at h
  split at h
  · next e' he =>
    cases h
    exact ⟨rfl, he⟩
  · split at h <;> cases h

/-- Where nothing is found, nothing stands, but there is a directory around it. -/
theorem spot_eq_vacant {place : Place} {slash : Bool} (h : d.spot q = .ok (.vacant place slash)) :
    place = q ∧ slash = false ∧ d.entry? q = none ∧ d.entry? q.dropLast = some .dir := by
  rw [spot] at h
  split at h
  · cases h
  · next hnone =>
    split at h
    · next hdir =>
      cases h
      exact ⟨rfl, rfl, hnone, hdir⟩
    · cases h

/-- The place of a directory is that of its path, and the directory is there. -/
theorem dirPlace?_eq_some (ht : d.IsPlainTree) (hq : ∀ n ∈ q, isEntryName n = true) {place : Place}
    (h : d.dirPlace? (ofPlace q) = some place) : place = q ∧ d.entry? q = some .dir := by
  exact spot_eq_found (locate_eq_ok ht hq (dirPlace?_eq_some_iff.mp h)).2.2

/-- Where nothing stands there is no directory. -/
theorem isDir_of_none (ht : d.IsPlainTree) (hq : ∀ n ∈ q, isEntryName n = true)
    (hnone : d.entry? q = none) : d.isDir (ofPlace q) = false := by
  rw [isDir, Option.isSome_eq_false_iff, Option.isNone_iff_eq_none,
    Option.eq_none_iff_forall_ne_some]
  intro place hplace
  rw [(dirPlace?_eq_some ht hq hplace).2] at hnone
  cases hnone

/-! ### Directories -/

/-- A directory that is made, or there already, has nothing in its way. -/
theorem ensureDir_eq_ok (ht : d.IsPlainTree) (hq : ∀ n ∈ q, isEntryName n = true)
    (h : d.ensureDir (ofPlace q) = .ok d') : (∀ n ∈ q, Fits n) ∧ d.Vacant q := by
  rw [ensureDir] at h
  split at h
  · next d₁ hmake =>
    rw [makeDir] at hmake
    split at hmake
    · cases hmake
    · cases hmake
    · next place slash hlocate =>
      obtain ⟨hfits, -, hspot⟩ := locateName_eq_ok ht hq hlocate
      obtain ⟨-, -, hnone, hdir⟩ := spot_eq_vacant hspot
      refine ⟨hfits, fun r hr => ?_⟩
      rcases List.eq_nil_or_concat q with rfl | ⟨up, n, rfl⟩
      · cases hnone
      · rw [List.concat_eq_append] at hr hnone hdir
        rw [List.dropLast_concat] at hdir
        rcases List.prefix_concat_iff.mp hr with rfl | hr
        · exact .inl hnone
        · exact ht.vacant_of_dir hdir r hr
  · split at h
    · next hisDir =>
      obtain ⟨place, hlocate⟩ := isDir_eq_true_iff.mp hisDir
      obtain ⟨hfits, -, hspot⟩ := locate_eq_ok ht hq hlocate
      exact ⟨hfits, ht.vacant_of_dir (spot_eq_found hspot).2⟩
    · cases h

/-- **Directories that are made have nothing in their way.** -/
theorem makeDirs_eq_ok (ht : d.IsPlainTree) (hq : ∀ n ∈ q, isEntryName n = true)
    (h : d.makeDirs (ofPlace q) = (.ok (), d')) : (∀ n ∈ q, Fits n) ∧ d.Vacant q := by
  rw [makeDirs, if_neg (text_ofPlace_ne q)] at h
  induction q using List.reverseRecOn generalizing d' with
  | nil => exact ⟨by simp, ht.vacant_of_dir (entry?_nil d)⟩
  | append_singleton q name ih =>
    have hq' : ∀ n ∈ q, isEntryName n = true := fun n hn => hq n (List.mem_append_left _ hn)
    rw [around_ofPlace hq, ensureDirs] at h
    split at h
    · next d₁ hensure => exact ensureDir_eq_ok ht hq hensure
    · split at h
      · next d₁ haround =>
        split at h
        · next d₂ hensure =>
          -- The directories around it were made, and nothing else is new.
          obtain ⟨hfits', hway'⟩ := ih hq' haround
          obtain ⟨d₁', hrun, ht₁, hd₁⟩ := makeDirs_ofPlace ht.toIsTree hfits' hway'
          rw [makeDirs, if_neg (text_ofPlace_ne q), haround] at hrun
          cases hrun
          obtain ⟨hfits, hway⟩ := ensureDir_eq_ok ⟨ht₁, ht.noLinks.of_dirs hd₁⟩ hq hensure
          refine ⟨hfits, fun r hr => ?_⟩
          rcases List.prefix_concat_iff.mp hr with rfl | hr
          · have hlast := hway _ (List.prefix_refl _)
            rwa [hd₁, if_neg fun hpre => absurd hpre.length_le (by simp)] at hlast
          · exact hway' r hr
        · cases h
      · next hne => exact absurd h (hne d')
    · cases h

/-! ### Files -/

/-- A file that is written has a directory around it, and nothing but a file was
there before. -/
theorem write_eq_ok (ht : d.IsPlainTree) (hq : ∀ n ∈ q ++ [name], isEntryName n = true)
    {content : Bytes} (h : d.write (ofPlace (q ++ [name])) content = .ok d') :
    (∀ n ∈ q ++ [name], Fits n) ∧ d.entry? q = some .dir ∧ d.TakesFile (q ++ [name]) := by
  rw [write] at h
  split at h
  · cases h
  · next place content' hlocate =>
    obtain ⟨hfits, -, hspot⟩ := locate_eq_ok ht hq hlocate
    obtain ⟨-, hentry⟩ := spot_eq_found hspot
    exact ⟨hfits, ht.closed hentry, by simp [hentry], ht.noLinks _ _⟩
  · cases h
  · next place slash hlocate =>
    obtain ⟨hfits, -, hspot⟩ := locate_eq_ok ht hq hlocate
    obtain ⟨-, -, hnone, hdir⟩ := spot_eq_vacant hspot
    rw [List.dropLast_concat] at hdir
    exact ⟨hfits, hdir, takesFile_of_none hnone⟩

/-- A file only takes a place where nothing but a file was. -/
theorem rename_eq_ok (ht : d.IsPlainTree) {source : FilePath}
    (hq : ∀ n ∈ q, isEntryName n = true) (h : d.rename source (ofPlace q) = .ok d') :
    (∀ n ∈ q, Fits n) ∧ d.TakesFile q := by
  rw [rename] at h
  split at h
  · cases h
  · cases h
  · cases h
  · split at h
    · cases h
    · next place' slash hlocate =>
      obtain ⟨hfits, -, hspot⟩ := locateName_eq_ok ht hq hlocate
      obtain ⟨-, -, hnone, -⟩ := spot_eq_vacant hspot
      exact ⟨hfits, takesFile_of_none hnone⟩
    · next place' e' hlocate =>
      obtain ⟨hfits, -, hspot⟩ := locateName_eq_ok ht hq hlocate
      obtain ⟨-, hentry⟩ := spot_eq_found hspot
      refine ⟨hfits, fun hdir => ?_, ht.noLinks _ _⟩
      obtain rfl : e' = .dir := Option.some.inj (hentry.symm.trans hdir)
      split at h
      · cases h
      · split at h
        · cases h
        · cases h

end KeyedSeries.Disk

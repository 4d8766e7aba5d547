import KeyedSeries.Proofs.Disk.Success

/-!
# Places that cannot be reached

A path may be no path at all, it may ask a directory for a name that is too long,
and a file may stand on its way (`KeyedSeries.Disk.Blocked`). On a tree without
links there is nothing else that a walk can fail from, apart from something that is
missing: **where nothing stands at a place, either the place is blocked, and a walk
fails for just that reason, or a walk finds out that nothing is there**
(`KeyedSeries.Disk.locate_of_none`).

Whether a place is blocked is decided by what stands above it
(`KeyedSeries.Disk.Blocked.congr`).
-/

namespace KeyedSeries.Disk

open FilePath

variable {d d' : Disk} {q : Place} {follow : Bool}

/-- What keeps a walk from a place, and how the walk fails. -/
inductive Blocked (d : Disk) (q : Place) : IoKind → Prop
  /-- A name has a zero in it, and no path has one. -/
  | zero (hzero : ∃ n ∈ q, '\x00' ∈ n.toList) : Blocked d q .invalidInput
  /-- A directory on the way is asked for a name that is too long. -/
  | tooLong {up rest : List String} {name : String} (hnoZero : ∀ n ∈ q, '\x00' ∉ n.toList)
    (hq : q = up ++ name :: rest) (hdir : d.entry? up = some .dir)
    (hlong : nameLimit < name.utf8ByteSize) : Blocked d q .invalidFilename
  /-- A file is on the way. -/
  | file {up rest : List String} {name : String} {content : Bytes}
    (hnoZero : ∀ n ∈ q, '\x00' ∉ n.toList) (hq : q = up ++ name :: rest) (hrest : rest ≠ [])
    (hfile : d.entry? (up ++ [name]) = some (.file content)) : Blocked d q .notADirectory

/-- What is above a place decides whether it is blocked. -/
theorem Blocked.congr {kind : IoKind} (h : ∀ r, r <+: q → r ≠ q → d'.entry? r = d.entry? r) :
    d.Blocked q kind ↔ d'.Blocked q kind := by
  have himp : ∀ {a b : Disk}, (∀ r, r <+: q → r ≠ q → b.entry? r = a.entry? r) →
      a.Blocked q kind → b.Blocked q kind := by
    intro a b hab hblocked
    cases hblocked with
    | zero hzero => exact .zero hzero
    | tooLong hnoZero hq hdir hlong =>
      refine .tooLong hnoZero hq ((hab _ ?_ ?_).trans hdir) hlong
      · exact hq ▸ List.prefix_append _ _
      · rw [hq]
        simp
    | @file up rest name content hnoZero hq hrest hfile =>
      have hassoc : q = up ++ [name] ++ rest := by rw [hq]; simp
      refine .file hnoZero hq hrest ((hab _ ?_ ?_).trans hfile)
      · exact hassoc ▸ List.prefix_append _ _
      · rw [hassoc]
        simpa using hrest.symm
  exact ⟨himp h, himp fun r hr hne => (h r hr hne).symm⟩

/-! ### Walks through directories -/

/-- A walk through directories comes to the last one of them. -/
theorem descend_append_of_dir (ht : d.IsTree) {here up : List String}
    (hdir : d.entry? (here ++ up) = some .dir) (rest : List String) :
    d.descend follow here (up ++ rest) = d.descend follow (here ++ up) rest := by
  induction up generalizing here with
  | nil => rw [List.nil_append, List.append_nil]
  | cons n up ih =>
    have hassoc : here ++ n :: up = here ++ [n] ++ up := by simp
    rw [hassoc] at hdir ⊢
    have hn : Fits n := ht.fits hdir n (by simp)
    have hstep : d.entry? (here ++ [n]) = some .dir := by
      by_cases hnil : up = []
      · rwa [hnil, List.append_nil] at hdir
      · exact ht.dir_of_append hnil hdir
    rw [List.cons_append, descend_of_goes (.down ⟨by simp [hn.ne_empty, hn.ne_here], hn.ne_up,
      hn.short⟩ hstep), ih hdir]

/-- Down from the root it comes to any directory that is there. -/
theorem descend_of_dir (ht : d.IsTree) {up : List String} (hdir : d.entry? up = some .dir)
    (rest : List String) : d.descend follow [] (up ++ rest) = d.descend follow up rest :=
  descend_append_of_dir ht (by rwa [List.nil_append]) rest

/-- The last directory of a way, behind which comes something else, or nothing. -/
theorem exists_last_dir {here : Place} (hhere : d.entry? here = some .dir) (names : List String) :
    ∃ up rest, names = up ++ rest ∧ d.entry? (here ++ up) = some .dir ∧
      ∀ name rest', rest = name :: rest' → d.entry? (here ++ up ++ [name]) ≠ some .dir := by
  induction names generalizing here with
  | nil => exact ⟨[], [], rfl, by rwa [List.append_nil], nofun⟩
  | cons n names ih =>
    by_cases hdir : d.entry? (here ++ [n]) = some .dir
    · obtain ⟨up, rest, rfl, hup, hlast⟩ := ih hdir
      refine ⟨n :: up, rest, rfl, ?_, fun name rest' heq => ?_⟩
      · simpa using hup
      · simpa using hlast name rest' heq
    · refine ⟨[], n :: names, rfl, by rwa [List.append_nil], fun name rest' heq => ?_⟩
      cases heq
      rwa [List.append_nil]

/-- A path without zeros is walked along by its names. -/
theorem locate_eq_of_descend (hq : ∀ n ∈ q, isEntryName n = true)
    (hzero : ∀ n ∈ q, '\x00' ∉ n.toList) (hne : q ≠ []) {r : Except IoKind Spot}
    (h : d.descend follow [] q = r.map .spot) : d.locate follow (ofPlace q) = r := by
  rw [locate_ofPlace_eq_walk hzero, walk,
    stepsOf_ofPlace hq, if_neg hne, descend, if_pos (.inl rfl), h]
  cases r <;> rfl

/-! ### What a walk comes to where nothing is -/

/-- **A walk to a blocked place fails** for the reason that blocks it. -/
theorem locate_of_blocked (ht : d.IsTree) (hq : ∀ n ∈ q, isEntryName n = true) {kind : IoKind}
    (h : d.Blocked q kind) : d.locate follow (ofPlace q) = .error kind := by
  have hstep : ∀ n ∈ q, ¬(n = "" ∨ n = hereName) ∧ n ≠ upName := by
    intro n hn
    obtain ⟨hempty, -, hname⟩ := isEntryName_iff.mp (hq n hn)
    obtain ⟨-, hhere, hup⟩ := isName_iff.mp hname
    exact ⟨by simp [hempty, hhere], hup⟩
  cases h with
  | zero hzero =>
    have hcontains : (ofPlace q).text.toList.contains '\x00' = true := by
      by_contra hnot
      obtain ⟨n, hn, hmem⟩ := hzero
      exact noZero_ofPlace.mp (Bool.eq_false_iff.mpr hnot) n hn hmem
    rw [locate, if_neg (text_ofPlace_ne q), if_pos hcontains]
  | @tooLong up rest name hnoZero heq hdir hlong =>
    obtain ⟨hcounts, hup⟩ := hstep name (by simp [heq])
    refine locate_eq_of_descend hq hnoZero (by simp [heq]) ?_
    rw [heq, descend_of_dir ht hdir, descend, if_neg hcounts, if_neg hup, if_pos hlong]
    rfl
  | @file up rest name content hnoZero heq hrest hfile =>
    obtain ⟨hcounts, hup⟩ := hstep name (by simp [heq])
    have hshort : name.utf8ByteSize ≤ nameLimit := (ht.fits hfile name (by simp)).short
    refine locate_eq_of_descend hq hnoZero (by simp [heq]) ?_
    rw [heq, descend_of_dir ht (ht.closed hfile), descend, if_neg hcounts, if_neg hup,
      if_neg (Nat.not_lt.mpr hshort)]
    simp [hfile, hrest, Except.map]

/-- A walk to a place where something stands finds it, so nothing blocks the place. -/
theorem not_blocked_of_some (ht : d.IsPlainTree) {e : Entry} (he : d.entry? q = some e)
    (kind : IoKind) : ¬d.Blocked q kind := by
  intro h
  have hfits := ht.fits he
  have hway := ht.passable_of_some he fun t heq => ht.noLinks q t (heq ▸ he)
  have hlocate : d.locate true (ofPlace q) = .error kind :=
    locate_of_blocked ht.toIsTree (fun n hn => (hfits n hn).isEntryName) h
  rw [locate_ofPlace ht.toIsTree hfits hway, spot_of_some he] at hlocate
  cases hlocate

/-- **Where nothing stands**, a walk fails because the place is blocked, or it is not
blocked, and the walk finds nothing. -/
theorem locate_of_none (ht : d.IsPlainTree) (hq : ∀ n ∈ q, isEntryName n = true)
    (hnone : d.entry? q = none) :
    (∃ kind, d.Blocked q kind) ∨ (∀ kind, ¬d.Blocked q kind) ∧ ∀ follow,
      d.locate follow (ofPlace q) = .error .notFound ∨
        ∃ place slash, d.locate follow (ofPlace q) = .ok (.vacant place slash) := by
  by_cases hblocked : ∃ kind, d.Blocked q kind
  · exact .inl hblocked
  refine .inr ⟨fun kind h => hblocked ⟨kind, h⟩, fun follow => ?_⟩
  have hne : q ≠ [] := by
    rintro rfl
    cases hnone
  have hnoZero : ∀ n ∈ q, '\x00' ∉ n.toList := fun n hn hzero =>
    hblocked ⟨_, .zero ⟨n, hn, hzero⟩⟩
  obtain ⟨up, rest, rfl, hdir, hlast⟩ := exists_last_dir (entry?_nil d) q
  rw [List.nil_append] at hdir
  cases rest with
  | nil =>
    rw [List.append_nil, hdir] at hnone
    cases hnone
  | cons name rest =>
    have hnotDir : d.entry? (up ++ [name]) ≠ some .dir := hlast name rest rfl
    obtain ⟨hempty, -, hname⟩ := isEntryName_iff.mp (hq name (by simp))
    obtain ⟨-, hhere, hisUp⟩ := isName_iff.mp hname
    have hshort : ¬nameLimit < name.utf8ByteSize := fun hlong =>
      hblocked ⟨_, .tooLong hnoZero rfl hdir hlong⟩
    -- Behind the last directory there is nothing, as a file would be in the way.
    have hfree : d.entry? (up ++ [name]) = none := by
      cases hentry : d.entry? (up ++ [name]) with
      | none => rfl
      | some e =>
        cases e with
        | dir => exact absurd hentry hnotDir
        | link t => exact absurd hentry (ht.noLinks _ _)
        | file content =>
          by_cases hrest : rest = []
          · rw [hrest, hentry] at hnone
            cases hnone
          · exact absurd ⟨_, .file hnoZero rfl hrest hentry⟩ hblocked
    have hdescend : d.descend follow [] (up ++ name :: rest) =
        (if rest.all (· = "") then .ok (.vacant (up ++ [name]) (!rest.isEmpty))
          else .error .notFound : Except IoKind Spot).map .spot := by
      rw [descend_of_dir ht.toIsTree hdir, descend, if_neg (by simp [hempty, hhere]), if_neg hisUp,
        if_neg hshort]
      simp only [hfree]
      split <;> rfl
    rw [locate_eq_of_descend hq hnoZero hne hdescend]
    split
    · exact .inr ⟨_, _, rfl⟩
    · exact .inl rfl

end KeyedSeries.Disk

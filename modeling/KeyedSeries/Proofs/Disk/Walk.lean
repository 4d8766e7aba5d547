import KeyedSeries.Proofs.Disk.Success

/-!
# Walks along any path

A path may be written in many ways: with single dots, with steps upwards, over links, with
slashes at its end. On a tree whose links hold paths without zeros
(`KeyedSeries.Disk.IsLinkedTree`) **a walk that succeeds ends at an entry of the tree,
or at a place in a directory where a name that entries can have is free**
(`KeyedSeries.Disk.leads_of_locate`). So whatever the path and whatever comes of it, to
make its directories adds directories to the tree and changes nothing else
(`KeyedSeries.Disk.grown_makeDirs`), and **once they are made, the path leads to the last
of them** (`KeyedSeries.Disk.isDir_of_makeDirs`).
-/

namespace KeyedSeries.Disk

open FilePath

variable {d d' : Disk} {p : FilePath} {q : Place}

/-! ### Trees with links -/

/-- A tree whose links hold paths that could be given as well: no zero is in them. -/
structure IsLinkedTree (d : Disk) : Prop extends IsTree d where
  /-- No link holds a path with a zero in it. -/
  noZero : ∀ {q t}, d.entry? q = some (.link t) → '\x00' ∉ t.toList

theorem IsPlainTree.isLinkedTree (h : d.IsPlainTree) : d.IsLinkedTree :=
  ⟨h.toIsTree, fun hlink => absurd hlink (h.noLinks _ _)⟩

/-- An entry may be put into a directory where nothing stands. -/
theorem IsLinkedTree.put (h : d.IsLinkedTree) {name : String} {e : Entry}
    (hdir : d.entry? q = some .dir) (hname : Fits name) (hnone : d.entry? (q ++ [name]) = none)
    (hlink : ∀ t, e = .link t → '\x00' ∉ t.toList) : (d.put (q ++ [name]) e).IsLinkedTree := by
  refine ⟨h.toIsTree.put hdir hname fun hfound => ?_, fun {r t} hr => ?_⟩
  · rw [hnone] at hfound
    cases hfound
  · rw [entry?_put (by simp)] at hr
    split at hr
    · exact hlink t (Option.some.inj hr)
    · exact h.noZero hr

/-! ### Steps of a written path -/

/-- A text that stands between the slashes of a path without a zero. -/
structure IsStep (step : String) : Prop where
  /-- No slash is in it. -/
  noSlash : '/' ∉ step.toList
  /-- No zero is in it. -/
  noZero : '\x00' ∉ step.toList

/-- A step that is neither left out nor goes upwards is a plain name. -/
theorem IsStep.isPlain {step : String} (h : IsStep step)
    (hskip : ¬(step = "" ∨ step = hereName)) (hup : step ≠ upName) : IsPlain step := by
  rw [not_or] at hskip
  refine ⟨isEntryName_iff.mpr ⟨hskip.1, h.noSlash, isName_iff.mpr ⟨?_, hskip.2, hup⟩⟩, h.noZero⟩
  rintro rfl
  exact h.noSlash (by decide)

/-- What stands in a piece stands in the text. -/
theorem mem_of_mem_pieces {separator letter : Char} {t piece : List Char}
    (hpiece : piece ∈ pieces separator t) (h : letter ∈ piece) : letter ∈ t := by
  induction t generalizing piece with
  | nil =>
    rw [pieces, List.mem_singleton] at hpiece
    exact absurd h (by simp [hpiece])
  | cons c rest ih =>
    rw [pieces] at hpiece
    split at hpiece
    · rcases List.mem_cons.mp hpiece with rfl | hpiece
      · cases h
      · exact List.mem_cons_of_mem _ (ih hpiece h)
    · split at hpiece
      · next hnil => exact absurd hnil (pieces_ne_nil separator rest)
      · next first others hcons =>
        rw [hcons] at ih
        rcases List.mem_cons.mp hpiece with rfl | hpiece
        · rcases List.mem_cons.mp h with rfl | h
          · exact List.mem_cons_self
          · exact List.mem_cons_of_mem _ (ih List.mem_cons_self h)
        · exact List.mem_cons_of_mem _ (ih (List.mem_cons_of_mem _ hpiece) h)

theorem isStep_of_mem_stepsOf {text step : String} (hzero : '\x00' ∉ text.toList)
    (h : step ∈ stepsOf text) : IsStep step := by
  obtain ⟨piece, hpiece, rfl⟩ := List.mem_map.mp h
  constructor
  · rw [String.toList_ofList]
    exact notMem_of_mem_pieces hpiece
  · rw [String.toList_ofList]
    exact fun hmem => hzero (mem_of_mem_pieces hpiece hmem)

/-- A path is the path without the slashes at its end, and these slashes. -/
theorem toList_withoutSlashes (p : FilePath) :
    ∃ n, p.text.toList = (withoutSlashes p).text.toList ++ List.replicate n '/' := by
  rw [withoutSlashes]
  split
  · exact ⟨0, by simp⟩
  · refine ⟨(p.text.toList.reverse.takeWhile (· == '/')).length, ?_⟩
    have hslashes : p.text.toList.reverse.takeWhile (· == '/') =
        List.replicate (p.text.toList.reverse.takeWhile (· == '/')).length '/' :=
      List.eq_replicate_iff.mpr ⟨rfl, fun c hc => by
        simpa using List.all_eq_true.mp List.all_takeWhile c hc⟩
    calc
      p.text.toList = (p.text.toList.reverse.takeWhile (· == '/') ++
          p.text.toList.reverse.dropWhile (· == '/')).reverse := by
        rw [List.takeWhile_append_dropWhile, List.reverse_reverse]
      _ = (p.text.toList.reverse.dropWhile (· == '/')).reverse ++
          (p.text.toList.reverse.takeWhile (· == '/')).reverse := List.reverse_append
      _ = _ := by
        rw [String.toList_ofList]
        refine congrArg _ ?_
        conv_lhs => rw [hslashes, List.reverse_replicate]

/-- The steps of a path are those of the path without the slashes at its end, and empty
ones. -/
theorem stepsOf_withoutSlashes {n : Nat}
    (h : p.text.toList = (withoutSlashes p).text.toList ++ List.replicate n '/') :
    stepsOf p.text = stepsOf (withoutSlashes p).text ++ List.replicate n "" := by
  have hpieces : ∀ (n : Nat) (t : List Char),
      pieces '/' (t ++ List.replicate n '/') = pieces '/' t ++ List.replicate n [] := by
    intro n t
    induction n with
    | zero => simp
    | succ n ih =>
      -- A slash at the end of a text is followed by an empty piece.
      rw [List.replicate_succ', List.replicate_succ', ← List.append_assoc,
        pieces_append_cons _ List.not_mem_nil, ih, List.append_assoc]
  rw [stepsOf, stepsOf, h, hpieces, List.map_append, List.map_replicate]

/-! ### Where a walk ends -/

/-- At an entry of the disk, or at a place in a directory where a name that entries can
have is free. -/
def Leads (d : Disk) : Spot → Prop
  | .found q e => d.entry? q = some e
  | .vacant q _ =>
    ∃ up name, q = up ++ [name] ∧ d.entry? up = some .dir ∧ d.entry? q = none ∧ Fits name

/-- At a spot, or at a link in a directory, with steps behind it. -/
def StopsAt (d : Disk) : Stop → Prop
  | .spot s => d.Leads s
  | .detour base target rest => d.entry? base = some .dir ∧
      (∃ name, d.entry? (base ++ [name]) = some (.link target)) ∧ ∀ n ∈ rest, IsStep n

theorem stopsAt_of_descend (ht : d.IsTree) {follow : Bool} {here steps : List String}
    (hhere : d.entry? here = some .dir) (hsteps : ∀ n ∈ steps, IsStep n) {stop : Stop}
    (h : d.descend follow here steps = .ok stop) : d.StopsAt stop := by
  induction steps generalizing here with
  | nil =>
    cases h
    exact hhere
  | cons name rest ih =>
    obtain ⟨hname, hrest⟩ := List.forall_mem_cons.mp hsteps
    rcases descend_cons_eq_ok h with ⟨there, hgoes, hbehind⟩ | hends
    · exact ih (hgoes.dir ht hhere) hrest hbehind
    · cases hends with
      | vacant hstep hnone _ =>
        exact ⟨here, name, rfl, hhere, hnone,
          ⟨hname.isPlain hstep.counts hstep.notUp, hstep.short⟩⟩
      | file _ hfile => exact hfile
      | link _ hlink => exact hlink
      | detour _ hlink => exact ⟨hhere, ⟨name, hlink⟩, hrest⟩

theorem leads_of_walk (ht : d.IsLinkedTree) {follow : Bool} {stretches : Nat}
    {here steps : List String} (hhere : d.entry? here = some .dir)
    (hsteps : ∀ n ∈ steps, IsStep n) {s : Spot}
    (h : d.walk follow stretches here steps = .ok s) : d.Leads s := by
  induction stretches generalizing here steps with
  | zero => cases h
  | succ stretches ih =>
    rcases walk_succ_eq_ok_iff.mp h with hdescend | ⟨base, target, rest, hdescend, hwalk⟩
    · exact stopsAt_of_descend ht.toIsTree hhere hsteps hdescend
    · obtain ⟨hbase, ⟨name, hlink⟩, hrest⟩ :=
        stopsAt_of_descend ht.toIsTree hhere hsteps hdescend
      refine ih ?_ (fun n hn => ?_) hwalk
      · split
        · rfl
        · exact hbase
      · rcases List.mem_append.mp hn with hn | hn
        · exact isStep_of_mem_stepsOf (ht.noZero hlink) hn
        · exact hrest n hn

/-- **Where a walk ends.** -/
theorem leads_of_locate (ht : d.IsLinkedTree) {follow : Bool} {s : Spot}
    (h : d.locate follow p = .ok s) : d.Leads s := by
  obtain ⟨-, hzero, hwalk⟩ := walk_of_locate h
  exact leads_of_walk ht (entry?_nil d) (fun n hn => isStep_of_mem_stepsOf hzero hn) hwalk

/-- A walk on a tree without links is one stretch. -/
theorem descend_of_locate (ht : d.IsPlainTree) {follow : Bool} {s : Spot}
    (h : d.locate follow p = .ok s) :
    '\x00' ∉ p.text.toList ∧ d.descend follow [] (stepsOf p.text) = .ok (.spot s) := by
  obtain ⟨-, hzero, hwalk⟩ := walk_of_locate h
  refine ⟨hzero, ?_⟩
  rcases walk_succ_eq_ok_iff.mp hwalk with hdescend | ⟨base, target, rest, hdescend, -⟩
  · exact hdescend
  · obtain ⟨-, ⟨name, hlink⟩, -⟩ := stopsAt_of_descend ht.toIsTree (entry?_nil d)
      (fun n hn => isStep_of_mem_stepsOf hzero hn) hdescend
    exact absurd hlink (ht.noLinks _ _)

/-! ### Directories that were made -/

/-- A step goes as before where a directory was made. -/
theorem Goes.put_dir {here there : Place} {name : String} (h : d.Goes here name there)
    (hq : q ≠ []) : Goes (d.put q .dir) here name there := by
  cases h with
  | stay hskip => exact .stay hskip
  | up hup => exact .up hup
  | down hstep hdir =>
    refine .down hstep ?_
    rw [entry?_put hq]
    split
    · rfl
    · exact hdir

/-- Empty steps lead from a directory to itself. -/
theorem descend_of_empty (d : Disk) (follow : Bool) (here : Place) {steps : List String}
    (h : ∀ n ∈ steps, n = "") : d.descend follow here steps = .ok (.spot (.found here .dir)) := by
  induction steps with
  | nil => rfl
  | cons n rest ih =>
    obtain ⟨hn, hrest⟩ := List.forall_mem_cons.mp h
    rw [descend_of_goes (.stay (.inl hn)), ih hrest]

/-- Where a walk found a free place, it finds the directory that was made there. -/
theorem descend_put_dir (hq : q ≠ []) {follow : Bool}
    {here steps : List String} {slash : Bool}
    (h : d.descend follow here steps = .ok (.spot (.vacant q slash))) (n : Nat) :
    Disk.descend (d.put q .dir) true here (steps ++ List.replicate n "") =
      .ok (.spot (.found q .dir)) := by
  induction steps generalizing here with
  | nil => cases h
  | cons name rest ih =>
    rw [List.cons_append]
    rcases descend_cons_eq_ok h with ⟨there, hgoes, hbehind⟩ | hends
    · rw [descend_of_goes (hgoes.put_dir hq)]
      exact ih hbehind
    · cases hends with
      | vacant hstep _ hrest =>
        rw [descend_of_goes (.down hstep (by rw [entry?_put hq, if_pos rfl]))]
        refine descend_of_empty _ _ _ fun b hb => ?_
        rcases List.mem_append.mp hb with hb | hb
        · exact hrest b hb
        · exact List.eq_of_mem_replicate hb

/-- Where a walk came to a link, it still does, wherever a directory was made. -/
theorem descend_put_dir_detour (hq : q ≠ []) (hnone : d.entry? q = none) {follow : Bool}
    {here steps : List String} {base : Place} {target : String} {rest : List String}
    (h : d.descend follow here steps = .ok (.detour base target rest)) (n : Nat) :
    Disk.descend (d.put q .dir) true here (steps ++ List.replicate n "") =
      .ok (.detour base target (rest ++ List.replicate n "")) := by
  induction steps generalizing here with
  | nil => cases h
  | cons name rest ih =>
    rw [List.cons_append]
    rcases descend_cons_eq_ok h with ⟨there, hgoes, hbehind⟩ | hends
    · rw [descend_of_goes (hgoes.put_dir hq)]
      exact ih hbehind
    · cases hends with
      | detour hstep hlink =>
        have hkept : Disk.entry? (d.put q .dir) (base ++ [name]) = some (.link target) := by
          rw [entry?_put hq, if_neg, hlink]
          rintro rfl
          rw [hnone] at hlink
          cases hlink
        rw [descend, if_neg hstep.counts, if_neg hstep.notUp, if_neg (Nat.not_lt.mpr hstep.short),
          hkept]
        simp

theorem walk_put_dir (hq : q ≠ []) (hnone : d.entry? q = none) {follow : Bool} {stretches : Nat}
    {here steps : List String} {slash : Bool}
    (h : d.walk follow stretches here steps = .ok (.vacant q slash)) (n : Nat) :
    Disk.walk (d.put q .dir) true stretches here (steps ++ List.replicate n "") =
      .ok (.found q .dir) := by
  induction stretches generalizing here steps with
  | zero => cases h
  | succ stretches ih =>
    rcases walk_succ_eq_ok_iff.mp h with hdescend | ⟨base, target, rest, hdescend, hwalk⟩
    · exact walk_succ_eq_ok_iff.mpr (.inl (descend_put_dir hq hdescend n))
    · have hdetour := descend_put_dir_detour hq hnone hdescend n
      refine walk_succ_eq_ok_iff.mpr (.inr ⟨base, target, _, hdetour, ?_⟩)
      rw [← List.append_assoc]
      exact ih hwalk

/-- **A directory that is made** is new at a free place, and its path leads to it. -/
theorem makeDir_eq_ok (ht : d.IsLinkedTree) (h : d.makeDir p = .ok d') :
    ∃ up name slash, d.locateName p = .ok (.vacant (up ++ [name]) slash) ∧
      d.entry? up = some .dir ∧ d.entry? (up ++ [name]) = none ∧ Fits name ∧
      d' = d.put (up ++ [name]) .dir ∧ d'.isDir p = true := by
  rw [makeDir] at h
  split at h
  · cases h
  · cases h
  · next place slash hlocate =>
    cases h
    obtain ⟨up, name, rfl, hup, hnone, hname⟩ := leads_of_locate ht hlocate
    refine ⟨up, name, slash, hlocate, hup, hnone, hname, rfl, ?_⟩
    -- Slashes at the end of the path were left out, and lead from the directory to itself.
    obtain ⟨htext, hzero, hwalk⟩ := walk_of_locate hlocate
    obtain ⟨n, hn⟩ := toList_withoutSlashes p
    have hdir := walk_put_dir (by simp) hnone hwalk n
    rw [← stepsOf_withoutSlashes hn] at hdir
    have htext' : p.text ≠ "" := by
      rintro hempty
      rw [hempty, String.toList_empty, eq_comm, List.append_eq_nil_iff] at hn
      exact htext (String.toList_eq_nil_iff.mp hn.1)
    have hzero' : '\x00' ∉ p.text.toList := by simpa [hn] using hzero
    rw [isDir_eq_true_iff, locate_eq_walk htext' hzero', hdir]
    exact ⟨_, rfl⟩

/-- Between two disks directories were made at places of a kind where nothing stood, and
nothing else has changed. -/
structure Grown (P : Place → Prop) (d d' : Disk) : Prop where
  /-- The disk is still a tree. -/
  isLinkedTree : d'.IsLinkedTree
  /-- What stands at a place is what stood there, or a new directory. -/
  entry : ∀ r, d'.entry? r = d.entry? r ∨ P r ∧ d.entry? r = none ∧ d'.entry? r = some .dir

namespace Grown

variable {P : Place → Prop}

theorem refl (ht : d.IsLinkedTree) : Grown P d d := ⟨ht, fun _ => .inl rfl⟩

theorem trans {d'' : Disk} (h : Grown P d d') (h' : Grown P d' d'') : Grown P d d'' where
  isLinkedTree := h'.isLinkedTree
  entry := by
    intro r
    rcases h.entry r with hsame | ⟨hr, hnone, hdir⟩
    · rw [← hsame]
      exact h'.entry r
    · refine .inr ⟨hr, hnone, ?_⟩
      rcases h'.entry r with hsame | ⟨-, hnone', -⟩
      · rw [hsame, hdir]
      · rw [hdir] at hnone'
        cases hnone'

/-- What stood somewhere stands there still. -/
theorem of_some (h : Grown P d d') {e : Entry} (he : d.entry? q = some e) :
    d'.entry? q = some e := by
  rcases h.entry q with hsame | ⟨-, hnone, -⟩
  · rw [hsame, he]
  · rw [hnone] at he
    cases he

/-- Behind the directories on the way to a place nothing has changed. -/
theorem behind (h : Grown (· <+: q) d d') (n : String) :
    d'.entry? (q ++ [n]) = d.entry? (q ++ [n]) := by
  rcases h.entry (q ++ [n]) with hsame | ⟨hpre, -⟩
  · exact hsame
  · exact absurd hpre.length_le (by simp)

/-- A link stood there before. -/
theorem link_iff (h : Grown P d d') {t : String} :
    d'.entry? q = some (.link t) ↔ d.entry? q = some (.link t) := by
  refine ⟨fun hlink => ?_, h.of_some⟩
  rcases h.entry q with hsame | ⟨-, -, hdir⟩
  · rwa [hsame] at hlink
  · rw [hdir] at hlink
    cases hlink

/-- No link has come to a tree without links. -/
theorem isPlainTree (h : Grown P d d') (ht : d.IsPlainTree) : d'.IsPlainTree :=
  ⟨h.isLinkedTree.toIsTree, fun q t hlink => ht.noLinks q t (h.link_iff.mp hlink)⟩

end Grown

variable {P : Place → Prop}

theorem grown_ensureDir (ht : d.IsLinkedTree)
    (hP : ∀ place slash, d.locateName p = .ok (.vacant place slash) → P place)
    (h : d.ensureDir p = .ok d') : Grown P d d' ∧ d'.isDir p = true := by
  rw [ensureDir] at h
  split at h
  · next d₁ hmake =>
    cases h
    obtain ⟨up, name, slash, hlocate, hup, hnone, hname, rfl, hdir⟩ := makeDir_eq_ok ht hmake
    have hdirectory : ∀ t, Entry.dir = .link t → '\x00' ∉ t.toList := fun _ heq => by cases heq
    refine ⟨⟨ht.put hup hname hnone hdirectory, fun r => ?_⟩, hdir⟩
    rw [entry?_put (by simp)]
    by_cases heq : r = up ++ [name]
    · rw [if_pos heq, heq]
      exact .inr ⟨hP _ _ hlocate, hnone, rfl⟩
    · exact .inl (if_neg heq)
  · split at h
    · next hdir =>
      cases h
      exact ⟨.refl ht, hdir⟩
    · cases h

/-- **To make directories** adds directories, whatever comes of it; if they are made, the
path leads to the first one of the list. -/
theorem grown_ensureDirs (ht : d.IsLinkedTree) (ps : List FilePath)
    (hP : ∀ p ∈ ps, ∀ d', Grown P d d' → ∀ place slash,
      d'.locateName p = .ok (.vacant place slash) → P place) :
    Grown P d (d.ensureDirs ps).2 ∧
      ∀ p ∈ ps.head?, (d.ensureDirs ps).1 = .ok () → (d.ensureDirs ps).2.isDir p = true := by
  induction ps with
  | nil => exact ⟨.refl ht, nofun⟩
  | cons p around ih =>
    obtain ⟨hp, haround⟩ := List.forall_mem_cons.mp hP
    simp only [List.head?_cons, Option.mem_def, Option.some.injEq, forall_eq']
    rw [ensureDirs]
    split
    · next d₁ hensure =>
      obtain ⟨hgrown, hdir⟩ := grown_ensureDir ht (hp d (.refl ht)) hensure
      exact ⟨hgrown, fun _ => hdir⟩
    · obtain ⟨hgrown, -⟩ := ih haround
      split
      · next d₁ hrun =>
        rw [hrun] at hgrown
        split
        · next d₂ hensure =>
          obtain ⟨hgrown', hdir⟩ := grown_ensureDir hgrown.isLinkedTree (hp d₁ hgrown) hensure
          exact ⟨hgrown.trans hgrown', fun _ => hdir⟩
        · exact ⟨hgrown, nofun⟩
      · next hfail => exact ⟨hgrown, fun hok => (hfail _ (Prod.ext hok rfl)).elim⟩
    · exact ⟨.refl ht, nofun⟩

/-- **To make the directories of any path** adds directories to the tree, and nothing
else has changed. -/
theorem grown_makeDirs (ht : d.IsLinkedTree) (p : FilePath) :
    Grown (fun _ => True) d (d.makeDirs p).2 := by
  rw [makeDirs]
  split
  · exact .refl ht
  · exact (grown_ensureDirs ht _ fun _ _ _ _ _ _ _ => trivial).1

/-- Directories that were made can be found by the path they were made for. -/
theorem isDir_of_makeDirs (ht : d.IsLinkedTree) (hp : p.text ≠ "")
    (h : d.makeDirs p = (.ok (), d')) : d'.isDir p = true := by
  rw [makeDirs, if_neg hp] at h
  obtain ⟨-, hdir⟩ := grown_ensureDirs (P := fun _ => True) ht (p :: p.around)
    fun _ _ _ _ _ _ _ => trivial
  rw [h] at hdir
  exact hdir p rfl rfl

/-- The directories around the path of a place have paths of places before it. -/
theorem mem_around_ofPlace (hq : ∀ n ∈ q, isEntryName n = true) (h : p ∈ (ofPlace q).around) :
    ∃ r, r <+: q ∧ p = ofPlace r := by
  rw [around, components_ofPlace hq, List.mem_map] at h
  obtain ⟨i, hi, rfl⟩ := h
  rw [List.mem_range, List.length_cons, Nat.add_sub_cancel] at hi
  obtain ⟨k, hk⟩ : ∃ k, q.length - i = k + 1 := ⟨q.length - i - 1, by omega⟩
  refine ⟨q.take k, List.take_prefix k q, ?_⟩
  rw [List.length_cons, Nat.add_sub_cancel, hk, List.take_succ_cons]
  rfl

/-- To make the directories on the way to a place adds directories on the way, whatever
comes of it. -/
theorem grown_makeDirs_ofPlace (ht : d.IsPlainTree) (hq : ∀ n ∈ q, isEntryName n = true) :
    Grown (· <+: q) d (d.makeDirs (ofPlace q)).2 := by
  rw [makeDirs, if_neg (text_ofPlace_ne q)]
  refine (grown_ensureDirs ht.isLinkedTree _ fun p hp d' hgrown place slash hlocate => ?_).1
  obtain ⟨r, hr, rfl⟩ : ∃ r, r <+: q ∧ p = ofPlace r := by
    rcases List.mem_cons.mp hp with rfl | hp
    · exact ⟨q, List.prefix_refl q, rfl⟩
    · exact mem_around_ofPlace hq hp
  obtain ⟨-, -, hspot⟩ :=
    locateName_eq_ok (hgrown.isPlainTree ht) (fun n hn => hq n (hr.mem hn)) hlocate
  rw [(spot_eq_vacant hspot).1]
  exact hr

end KeyedSeries.Disk

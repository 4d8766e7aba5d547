import KeyedSeries.Proofs.Config.Roots

/-!
# Roots that are the same directory

An engine with a history that may write has two roots, and what is compared of them is how they
are written. The managed root is written as the place where it is. The history root is so if it
was there before the managed one was made; if it was not, it is written as it was given, with
steps upwards and over links. **The two roots lead to one directory only if the history root was
missing, and a step upwards is in its path or a link is on its way**
(`KeyedSeries.Config.separate_of_resolve`); and then they can
(`KeyedSeries.Config.one_directory_two_roots`): the directory that was missing is made as the
managed root.
-/

namespace KeyedSeries

open Disk FilePath

namespace Disk

variable {d : Disk} {p : FilePath}

/-! ### Straight ways -/

/-- The steps of a written path that lead from a directory to another place. -/
def counted (steps : List String) : List String := steps.filter fun n => n ≠ "" ∧ n ≠ hereName

/-- The place that was come to. -/
def Spot.place : Spot → Place
  | .found q _ => q
  | .vacant q _ => q

theorem counted_cons_of_skip {name : String} (h : name = "" ∨ name = hereName)
    (rest : List String) :
    counted (name :: rest) = counted rest := by
  rw [counted, List.filter_cons_of_neg]
  · rfl
  · rcases h with rfl | rfl <;> simp

theorem counted_cons {name : String} (h : ¬(name = "" ∨ name = hereName)) (rest : List String) :
    counted (name :: rest) = name :: counted rest := by
  rw [counted, List.filter_cons_of_pos (by simpa [not_or] using h)]
  rfl

/-- **A way without steps upwards and without links** leads down by its own names. -/
theorem place_of_descend {here steps : List String} (hup : upName ∉ steps)
    (hlinks : ∀ r t, r <+: here ++ counted steps → d.entry? r ≠ some (.link t)) {stop : Stop}
    (h : d.descend true here steps = .ok stop) :
    ∃ s, stop = .spot s ∧ s.place = here ++ counted steps := by
  induction steps generalizing here with
  | nil =>
    cases h
    exact ⟨_, rfl, (List.append_nil here).symm⟩
  | cons name rest ih =>
    rw [List.mem_cons, not_or] at hup
    have hdown (hcounts : ¬(name = "" ∨ name = hereName)) :
        here ++ counted (name :: rest) = here ++ [name] ++ counted rest := by
      rw [counted_cons hcounts, List.append_assoc, List.singleton_append]
    rcases descend_cons_eq_ok h with ⟨there, hgoes, hbehind⟩ | hends
    · cases hgoes with
      | stay hskip =>
        rw [counted_cons_of_skip hskip] at hlinks ⊢
        exact ih hup.2 hlinks hbehind
      | up hisUp => exact absurd hisUp.symm hup.1
      | down hstep _ =>
        rw [hdown hstep.counts] at hlinks ⊢
        exact ih hup.2 hlinks hbehind
    · cases hends with
      | vacant hstep _ hrest =>
        have hnone : counted rest = [] := by
          rw [counted, List.filter_eq_nil_iff]
          intro n hn
          simp [hrest n hn]
        refine ⟨_, rfl, ?_⟩
        rw [hdown hstep.counts, hnone, List.append_nil]
        rfl
      | file hstep _ hrest =>
        refine ⟨_, rfl, ?_⟩
        rw [hdown hstep.counts, hrest]
        exact (List.append_nil _).symm
      | link hfollow => cases hfollow
      | detour hstep hlink =>
        exact absurd hlink (hlinks _ _ (by rw [hdown hstep.counts]; exact List.prefix_append _ _))

/-- The components of a path from the root on are the root and the steps that count. -/
theorem components_of_isRooted (h : p.isRooted = true) :
    p.components = rootName :: counted (stepsOf p.text) := by
  obtain ⟨t, ht⟩ : ∃ t, p.text.toList = '/' :: t :=
    List.head?_eq_some_iff.mp (by simpa [isRooted] using h)
  have hnames : names (pieces '/' t) = counted ((pieces '/' t).map String.ofList) := by
    rw [names, counted, List.filter_map]
    congr 1
    refine List.filter_congr fun piece _ => ?_
    have hempty : String.ofList piece = "" ↔ piece = [] := by
      rw [← String.toList_inj, String.toList_ofList]
      rfl
    have hhere : String.ofList piece = hereName ↔ piece = ['.'] := by
      rw [← String.toList_inj, String.toList_ofList]
      rfl
    simp [hempty, hhere]
  rw [components, ht, componentsOf, hnames, stepsOf, ht, pieces, if_pos rfl, List.map_cons,
    counted_cons_of_skip (.inl rfl)]

theorem isRooted_absolute (p : FilePath) : p.absolute.isRooted = true := by
  rw [isRooted, absolute]
  simp only [String.toList_append]
  split <;> simp

/-- A path from the root on leads to the place that its components name, if no step upwards is in
it and no link is on its way. -/
theorem components_eq_of_dirPlace? {root : Place} (hrooted : p.isRooted = true)
    (hup : upName ∉ p.components) (hlinks : ∀ r t, r <+: p.components.tail →
      d.entry? r ≠ some (.link t)) (h : d.dirPlace? p = some root) :
    p.components = rootName :: root := by
  rw [components_of_isRooted hrooted] at hup hlinks ⊢
  have hsteps : upName ∉ stepsOf p.text := fun hmem =>
    hup (List.mem_cons_of_mem _ (List.mem_filter.mpr ⟨hmem, by decide⟩))
  obtain ⟨-, -, hwalk⟩ := walk_of_locate (dirPlace?_eq_some_iff.mp h)
  rcases walk_succ_eq_ok_iff.mp hwalk with hdescend | ⟨_, _, _, hdescend, -⟩
  · obtain ⟨s, hs, hplace⟩ := place_of_descend hsteps hlinks hdescend
    cases hs
    rw [show root = [] ++ counted (stepsOf p.text) from hplace, List.nil_append]
  · obtain ⟨s, hs, -⟩ := place_of_descend hsteps hlinks hdescend
    cases hs

/-- A walk that follows links ends at none. -/
theorem not_link_of_walk {stretches : Nat} {here steps : List String} {q : Place} {e : Entry}
    (h : d.walk true stretches here steps = .ok (.found q e)) (t : String) : e ≠ .link t := by
  have hdescend : ∀ {here steps : List String},
      d.descend true here steps = .ok (.spot (.found q e)) → e ≠ .link t := by
    intro here steps h
    induction steps generalizing here with
    | nil =>
      cases h
      exact nofun
    | cons name rest ih =>
      rcases descend_cons_eq_ok h with ⟨there, -, hbehind⟩ | hends
      · exact ih hbehind
      · cases hends with
        | file => exact nofun
        | link hfollow => cases hfollow
  induction stretches generalizing here steps with
  | zero => cases h
  | succ stretches ih =>
    rcases walk_succ_eq_ok_iff.mp h with hstop | ⟨_, _, _, -, hwalk⟩
    · exact hdescend hstop
    · exact ih hwalk

/-- **The path without links leads where the given one leads**, also when directories have been
added since. -/
theorem dirPlace?_of_canonical {d' : Disk} {P : Place → Prop} {path : FilePath} {root : Place}
    (ht : d.IsLinkedTree) (hgrown : Grown P d d') (h : d.canonical p = .ok path)
    (hroot : d'.dirPlace? path = some root) : path = ofPlace root := by
  rw [canonical] at h
  split at h
  · cases h
  · next place e hlocate =>
    cases h
    have he : d.entry? place = some e := entry?_of_locate ht.toIsTree hlocate
    have he' : d'.entry? place = some e := hgrown.of_some he
    have ht' : d'.IsTree := hgrown.isLinkedTree.toIsTree
    have hlink : ∀ t, e ≠ .link t := not_link_of_walk (walk_of_locate hlocate).2.2
    change d'.dirPlace? (ofPlace place) = some root at hroot
    rw [dirPlace?_ofPlace ht' (ht'.fits he') (ht'.passable_of_some he' hlink)] at hroot
    split at hroot
    · obtain rfl := Option.some.inj hroot
      rfl
    · cases hroot
  · cases h

end Disk

namespace Config

variable {config : Config} {d d' : Disk} {roots : Roots}

/-! ### The two roots -/

/-- The history root is that of a declared directory. -/
theorem historyRoot_eq_ok {history : FilePath} (h : config.historyRoot d = .ok history) :
    ∃ dir, config.historyDir = some dir ∧ rootPath d dir = .ok history := by
  rw [historyRoot] at h
  cases hdeclared : declared historyKey config.historyDir with
  | error failure =>
    rw [hdeclared] at h
    cases h
  | ok dir =>
    rw [hdeclared] at h
    cases hrefused : refuseFile d historyKey dir with
    | error failure =>
      simp only [bind, Except.bind, hrefused] at h
      cases h
    | ok _ =>
      simp only [bind, Except.bind, hrefused] at h
      exact ⟨dir, (declared_eq_ok hdeclared).1, h⟩

/-- The history root was missing before the managed root was made, and the path that it was given
does not lead straight down: a step upwards is in it, or a link is on its way. -/
structure MayCoincide (config : Config) (d : Disk) (history : FilePath) : Prop where
  /-- It was missing, and so it is written as it was given. -/
  missing : ∃ dir, config.historyDir = some dir ∧ d.exists? dir = false ∧ history = dir.absolute
  /-- It does not lead straight down. -/
  crooked : upName ∈ history.components ∨
    ∃ r t, r <+: history.components.tail ∧ d.entry? r = some (.link t)

/-- **The roots of an engine that may write are different directories** once it is opened, but for a
history root that was missing and whose path does not lead straight down. -/
theorem separate_of_resolve (ht : d.IsLinkedTree) (hhistory : config.hasHistory = true)
    (hwritable : config.readOnly = false) (h : config.resolve d = (.ok roots, d')) :
    ∃ managed history root, roots = ⟨some managed, some history⟩ ∧
      d'.dirPlace? managed = some root ∧
        (d'.dirPlace? history = some root → config.MayCoincide d history) := by
  obtain ⟨managed, hmanaged, hroots, hsecond⟩ := resolve_eq_ok h hwritable
  obtain ⟨history, hroot, hroots', hne⟩ := hsecond hhistory
  obtain ⟨hgrown, root, rfl, hdir⟩ := managedRoot_of_writable ht hmanaged hwritable
  have ht' : d'.IsTree := hgrown.isLinkedTree.toIsTree
  have hfits : ∀ n ∈ root, Fits n := ht'.fits hdir
  have hplace : d'.dirPlace? (ofPlace root) = some root := by
    rw [dirPlace?_ofPlace ht' hfits (ht'.passable_of_some hdir fun _ => nofun), if_pos hdir]
  refine ⟨ofPlace root, history, root, ?_, hplace, fun hsame => ?_⟩
  · cases roots
    simp_all
  · obtain ⟨dir, hdeclared, hpath⟩ := historyRoot_eq_ok hroot
    rw [rootPath] at hpath
    split at hpath
    · -- A history root that was there is written as its place is, and so differently.
      split at hpath
      · next hcanonical =>
        cases hpath
        rw [dirPlace?_of_canonical ht hgrown hcanonical hsame] at hne
        exact absurd rfl hne
      · cases hpath
    · next hmissing =>
      cases hpath
      refine ⟨⟨dir, hdeclared, by simpa using hmissing, rfl⟩, ?_⟩
      by_contra hstraight
      rw [not_or] at hstraight
      have hcomponents := components_eq_of_dirPlace? (isRooted_absolute dir) hstraight.1
        (fun r t hr hlink => hstraight.2 ⟨r, t, hr, hgrown.link_iff.mp hlink⟩) hsame
      rw [components_ofPlace fun n hn => (hfits n hn).isEntryName] at hne
      exact hne hcomponents.symm

/-- A configuration with a managed root and a history root. -/
def withRoots (managed history : String) : Config :=
  { dir := some ⟨managed⟩, historyDir := some ⟨history⟩, hasHistory := true }

/-- A disk with one directory. -/
def oneDirectory : Disk := ⟨.ofList [(["h"], .dir)]⟩

/-- A disk with a directory, and a link that leads to it. -/
def linkedDirectory : Disk := oneDirectory.put ["l"] (.link "h")

theorem isLinkedTree_linkedDirectory : linkedDirectory.IsLinkedTree := by
  have hplain : oneDirectory.IsPlainTree := by decide +kernel
  have hroot : oneDirectory.entry? [] = some .dir := rfl
  have hfits : Fits "l" := fits_iff.mpr (by decide +kernel)
  have hfree : oneDirectory.entry? ([] ++ ["l"]) = none := by decide +kernel
  refine hplain.isLinkedTree.put hroot hfits hfree fun t ht => ?_
  cases ht
  decide +kernel

/-- The history root is known by a link, and the managed root is made beside the directory that the
link leads to. -/
theorem separate_of_resolve_linkedDirectory :
    (withRoots "/l/../m" "/l").resolve linkedDirectory =
        (.ok ⟨some ⟨"/m"⟩, some ⟨"/h"⟩⟩, linkedDirectory.put ["m"] .dir) ∧
      (linkedDirectory.put ["m"] .dir).dirPlace? ⟨"/h"⟩ ≠ some ["m"] := by
  have hresolve : (withRoots "/l/../m" "/l").resolve linkedDirectory =
      (.ok ⟨some ⟨"/m"⟩, some ⟨"/h"⟩⟩, linkedDirectory.put ["m"] .dir) := by decide +kernel
  obtain ⟨managed, history, root, hroots, hmanaged, hsame⟩ :=
    separate_of_resolve isLinkedTree_linkedDirectory rfl rfl hresolve
  refine ⟨hresolve, fun hhistory => ?_⟩
  cases hroots
  have hplace : (linkedDirectory.put ["m"] .dir).dirPlace? ⟨"/m"⟩ = some ["m"] := by decide +kernel
  obtain rfl : root = ["m"] := Option.some.inj (hmanaged.symm.trans hplace)
  -- The history root was there.
  obtain ⟨dir, hdir, hmissing, -⟩ := (hsame hhistory).missing
  cases hdir
  revert hmissing
  decide +kernel

/-- **A step upwards, or a link**, in the path of a history root that is missing: the directory is
made as the managed root, and both roots lead to it. -/
theorem one_directory_two_roots :
    (((withRoots "/d" "/h/../d").resolve oneDirectory).1 = .ok ⟨some ⟨"/d"⟩, some ⟨"/h/../d"⟩⟩ ∧
      ((withRoots "/d" "/h/../d").resolve oneDirectory).2.dirPlace? ⟨"/d"⟩ = some ["d"] ∧
      ((withRoots "/d" "/h/../d").resolve oneDirectory).2.dirPlace? ⟨"/h/../d"⟩ = some ["d"]) ∧
    (((withRoots "/h/d" "/l/d").resolve linkedDirectory).1 = .ok ⟨some ⟨"/h/d"⟩, some ⟨"/l/d"⟩⟩ ∧
      ((withRoots "/h/d" "/l/d").resolve linkedDirectory).2.dirPlace? ⟨"/h/d"⟩ = some ["h", "d"] ∧
      ((withRoots "/h/d" "/l/d").resolve linkedDirectory).2.dirPlace? ⟨"/l/d"⟩ =
        some ["h", "d"]) := by
  decide +kernel

end Config

end KeyedSeries
